/-
Module: Kiln.Proofs.Grammar.Endings
Purpose: What stands behind the end of the source. No rule of the grammar looks past an end of the source, and
  where no token is left it does what it does at an end. So two runs on the same tokens, with anything
  behind the end of either, keep in step: they take the same tokens, draw the same ids, and give the same or
  fail alike. This holds also when the second may nest deeper, up to where the first may not.
Main exports: Unended, Parser.Endings, Parser.FailAlike, Parser.Agree, Parser.InStep, InStep.bind,
  Grammar.Parallel, Grammar.parallel, Grammar.program_agree, parse_agree, parse_hard_end
-/
import Kiln.Proofs.Grammar.Progress

namespace Kiln

/-- The source does not end within these tokens. -/
def Unended (tokens : List Token) : Prop := ∀ t ∈ tokens, t.kind ≠ .endOfFile

theorem Unended.tail {t : Token} {rest : List Token} (h : Unended (t :: rest)) : Unended rest :=
  fun u hu => h u (List.mem_cons_of_mem t hu)

namespace Parser

/-- The source is at its end before either list of tokens: each begins with an end of the source or is
    empty. -/
structure Endings (left right : List Token) : Prop where
  left : (front left).kind = .endOfFile
  right : (front right).kind = .endOfFile

/-- The failures are the same, unless both miss a parameter at the end of the source: then each shows the
    value of the token that it has found there. -/
def FailAlike (left right : List Token) (e e' : ParseError) : Prop :=
  e' = e ∨ e = .expectedParameter (front left).value ∧ e' = .expectedParameter (front right).value

/-- Two outcomes are the same up to what stands behind the end of the source, or the first run has given up.
    -/
inductive Agree (left right : List Token) {α : Type} :
    EStateM.Result ParseError Cursor α → EStateM.Result ParseError Cursor α → Prop where
  | gaveUp (c : Cursor) (other : EStateM.Result ParseError Cursor α) :
      Agree left right (.error .noToken c) other
  | ok (a : α) {rest : List Token} (drawn : Nat) (unended : Unended rest) :
      Agree left right (.ok a ⟨rest ++ left, drawn⟩) (.ok a ⟨rest ++ right, drawn⟩)
  | error {e e' : ParseError} (rest : List Token) (drawn : Nat) (alike : FailAlike left right e e') :
      Agree left right (.error e ⟨rest ++ left, drawn⟩) (.error e' ⟨rest ++ right, drawn⟩)

variable {α β : Type} {left right : List Token}

/-- Where the tokens `ts` stand before the end of the source, the two parsers do the same. -/
def InStep (left right : List Token) (p q : Parser α) (ts : List Token) : Prop :=
  ∀ drawn, Agree left right (p ⟨ts ++ left, drawn⟩) (q ⟨ts ++ right, drawn⟩)

theorem isArrowAfter_ended {ts : List Token} (h : (front ts).kind = .endOfFile) (opened : Nat) :
    isArrowAfter opened ts = false := by
  cases ts with
  | nil => rfl
  | cons t rest => exact isArrowAfter_end h opened

theorem isArrowNext_endings (h : Endings left right) (ts : List Token) :
    isArrowNext (ts ++ left) = isArrowNext (ts ++ right) := by
  have hended {ts : List Token} (h : (front ts).kind = .endOfFile) :
      isArrowNext ts = false ∧ ∀ t, isArrowNext (t :: ts) = (t.kind == .arrow) := by
    cases ts <;> simp_all [isArrowNext]
  cases ts with
  | nil => rw [List.nil_append, List.nil_append, (hended h.left).1, (hended h.right).1]
  | cons t rest =>
      cases rest with
      | nil => rw [List.singleton_append, List.singleton_append, (hended h.left).2, (hended h.right).2]
      | cons u more => rfl

/-- The search for an arrow stops at the end of the source, also behind its parenthesis. -/
theorem isArrowAfter_endings (h : Endings left right) (opened : Nat) (ts : List Token) :
    isArrowAfter opened (ts ++ left) = isArrowAfter opened (ts ++ right) := by
  induction ts generalizing opened with
  | nil => rw [List.nil_append, List.nil_append, isArrowAfter_ended h.left, isArrowAfter_ended h.right]
  | cons t rest ih =>
      simp only [List.cons_append, isArrowAfter, isArrowNext_endings h, ih]

namespace InStep

variable {ts : List Token} {f g : α → Parser β}

theorem gaveUp (q : Parser α) : InStep left right (throw .noToken) q ts :=
  fun drawn => .gaveUp ⟨ts ++ left, drawn⟩ (q ⟨ts ++ right, drawn⟩)

theorem throw {e e' : ParseError} (h : FailAlike left right e e') :
    InStep left right (throw e : Parser α) (throw e') ts :=
  fun drawn => .error ts drawn h

theorem pure {a : α} (h : Unended ts) : InStep left right (pure a) (pure a) ts :=
  fun drawn => .ok a drawn h

theorem bind {p q : Parser α} (hp : InStep left right p q ts)
    (hf : ∀ a rest, Unended rest → InStep left right (f a) (g a) rest) :
    InStep left right (p >>= f) (q >>= g) ts := by
  intro drawn
  have hrun := hp drawn
  simp only [Bind.bind, EStateM.bind]
  generalize p ⟨ts ++ left, drawn⟩ = r at hrun
  generalize q ⟨ts ++ right, drawn⟩ = r' at hrun
  cases hrun with
  | gaveUp c other => exact .gaveUp c _
  | ok a drawn' unended => exact hf a _ unended drawn'
  | error rest drawn' alike => exact .error rest drawn' alike

/-- Parsers whose results are only wrapped. -/
theorem map {p q : Parser α} {wrap : α → β} (hp : InStep left right p q ts) :
    InStep left right (do return wrap (← p)) (do return wrap (← q)) ts :=
  hp.bind fun _ _ hrest => pure hrest

/-- What is seen is the same token, or an end of the source on both sides. -/
theorem peek {f g : Token → Parser β}
    (hend : ts = [] → InStep left right (f (front left)) (g (front right)) [])
    (hnext : ∀ t rest, ts = t :: rest → InStep left right (f t) (g t) (t :: rest)) :
    InStep left right (Parser.peek >>= f) (Parser.peek >>= g) ts := by
  cases ts with
  | nil => exact hend rfl
  | cons t rest => exact hnext t rest rfl

theorem take {t : Token} (h : Unended ts) :
    InStep left right Parser.take Parser.take (t :: ts) :=
  fun drawn => .ok t drawn h

theorem skip {t : Token} (h : Unended ts) : InStep left right Parser.skip Parser.skip (t :: ts) :=
  fun drawn => .ok () drawn h

theorem freshId (h : Unended ts) : InStep left right Parser.freshId Parser.freshId ts :=
  fun drawn => .ok _ (drawn + 1) h

theorem atFunction (hends : Endings left right) {f g : Bool → Parser β}
    (hf : ∀ ahead, InStep left right (f ahead) (g ahead) ts) :
    InStep left right (Parser.atFunction >>= f) (Parser.atFunction >>= g) ts := by
  intro drawn
  have hahead : isArrowAhead (ts ++ left) = isArrowAhead (ts ++ right) := isArrowAfter_endings hends 0 ts
  simp only [Bind.bind, EStateM.bind, Parser.atFunction, hahead]
  exact hf _ drawn

theorem expect (hends : Endings left right) {kind : TokenKind} {cause : Token → ParseError}
    (hkind : kind ≠ .endOfFile) (hcause : FailAlike left right (cause (front left)) (cause (front right)))
    (h : Unended ts) : InStep left right (Parser.expect kind cause) (Parser.expect kind cause) ts := by
  refine .peek ?_ ?_
  · rintro rfl
    simp only [hends.left, hends.right, if_neg hkind.symm]
    exact .throw hcause
  · rintro t rest rfl
    split
    · exact .take h.tail
    · exact .throw (.inl rfl)

theorem accept (hends : Endings left right) {kind : TokenKind} (hkind : kind ≠ .endOfFile)
    (h : Unended ts) : InStep left right (Parser.accept kind) (Parser.accept kind) ts := by
  refine .peek ?_ ?_
  · rintro rfl
    simp only [hends.left, hends.right, if_neg hkind.symm]
    exact .pure h
  · rintro t rest rfl
    split
    · exact .bind (.skip h.tail) fun _ _ hrest => .pure hrest
    · exact .pure h

end InStep

end Parser

/-! ### The rules of the grammar -/

namespace Grammar

open Kiln.Parser

variable {left right ts : List Token}

theorem inStep_optionalType (hends : Endings left right) (h : Unended ts) :
    InStep left right optionalType optionalType ts := by
  refine .peek ?_ ?_
  · rintro rfl
    simp only [hends.left, hends.right, reduceCtorEq, if_false]
    exact .pure h
  · rintro t rest rfl
    split
    · exact .map (.take h.tail)
    · exact .pure h

theorem inStep_parameter (hends : Endings left right) (h : Unended ts) :
    InStep left right parameter parameter ts := by
  refine .bind (.expect hends nofun (.inr ⟨rfl, rfl⟩) h) fun name rest hrest => ?_
  refine .bind (.accept hends nofun hrest) fun _ rest hrest => ?_
  exact .map (inStep_optionalType hends hrest)

theorem inStep_parametersFrom (hends : Endings left right) (k n : Nat) (h : Unended ts) :
    InStep left right (parametersFrom n) (parametersFrom (k + n)) ts := by
  induction n generalizing ts with
  | zero => exact .gaveUp _
  | succ n ih =>
      rw [parametersFrom, ← Nat.add_assoc, parametersFrom]
      refine .bind (.accept hends (by decide) h) fun closed rest hrest => ?_
      cases closed with
      | true => exact .pure hrest
      | false =>
          refine .bind (inStep_parameter hends hrest) fun p rest hrest => ?_
          refine .bind (.accept hends (by decide) hrest) fun comma rest hrest => ?_
          have hmore : InStep left right (do return p :: (← parametersFrom n))
              (do return p :: (← parametersFrom (k + n))) rest := .map (ih hrest)
          cases comma with
          | true =>
              refine .peek ?_ ?_
              · rintro rfl
                simp only [hends.left, hends.right]
                exact .throw (.inr ⟨rfl, rfl⟩)
              · rintro t rest rfl
                by_cases hkind : t.kind = .identifier
                · simpa [hkind] using hmore
                · simp only [ne_eq, hkind, not_false_eq_true, if_true]
                  exact .throw (.inl rfl)
          | false =>
              refine .peek ?_ ?_
              · rintro rfl
                simp only [hends.left, hends.right]
                exact .throw (.inl rfl)
              · rintro t rest rfl
                by_cases hkind : t.kind = .closeParen
                · simpa [hkind] using hmore
                · simp only [ne_eq, hkind, not_false_eq_true, if_true]
                  exact .throw (.inl rfl)

theorem inStep_parameters (hends : Endings left right) (k n : Nat) (h : Unended ts) :
    InStep left right (parameters n) (parameters (k + n)) ts := by
  have hcause : FailAlike left right (.wrongToken .openParen (front left).kind)
      (.wrongToken .openParen (front right).kind) := .inl (by rw [hends.left, hends.right])
  exact .bind (.expect hends nofun hcause h) fun _ rest hrest => inStep_parametersFrom hends k n hrest

/-- All rules of the grammar keep in step when the first may be nested up to `n` deep and the second `k`
    more. -/
structure Parallel (left right : List Token) (k n : Nat) : Prop where
  expression : ∀ {ts}, Unended ts → InStep left right (expression n) (expression (k + n)) ts
  operands : ∀ levels {ts}, Unended ts →
    InStep left right (operands n levels) (operands (k + n) levels) ts
  chain : ∀ level tighter e {ts}, Unended ts →
    InStep left right (chain n level tighter e) (chain (k + n) level tighter e) ts
  unary : ∀ {ts}, Unended ts → InStep left right (unary n) (unary (k + n)) ts
  selections : ∀ e {ts}, Unended ts → InStep left right (selections n e) (selections (k + n) e) ts
  arguments : ∀ {ts}, Unended ts → InStep left right (arguments n) (arguments (k + n)) ts
  moreArguments : ∀ {ts}, Unended ts → InStep left right (moreArguments n) (moreArguments (k + n)) ts
  primary : ∀ {ts}, Unended ts → InStep left right (primary n) (primary (k + n)) ts
  lambda : ∀ {ts}, Unended ts → InStep left right (lambda n) (lambda (k + n)) ts
  named : ∀ name {ts}, Unended ts → InStep left right (named n name) (named (k + n) name) ts
  braced : ∀ owner {ts}, Unended ts → InStep left right (braced n owner) (braced (k + n) owner) ts
  statements : ∀ {ts}, Unended ts → InStep left right (statements n) (statements (k + n)) ts
  statement : ∀ {ts}, Unended ts → InStep left right (statement n) (statement (k + n)) ts
  conditional : ∀ {ts}, Unended ts → InStep left right (conditional n) (conditional (k + n)) ts
  methods : ∀ {ts}, Unended ts → InStep left right (methods n) (methods (k + n)) ts
  simple : ∀ {ts}, Unended ts → InStep left right (simple n) (simple (k + n)) ts

namespace Parallel

variable {k n : Nat}

theorem zero : Parallel left right k 0 := by
  constructor <;> intros <;> exact .gaveUp _

theorem operands_succ (ih : Parallel left right k n) (levels : List Level) (h : Unended ts) :
    InStep left right (Grammar.operands (n + 1) levels) (Grammar.operands (k + n + 1) levels) ts := by
  cases levels with
  | nil => exact ih.unary h
  | cons level tighter =>
      exact .bind (ih.operands tighter h) fun e rest hrest => ih.chain level tighter e hrest

theorem chain_succ (ih : Parallel left right k n) (hends : Endings left right) (level : Level)
    (tighter : List Level) (e : Expr) (h : Unended ts) :
    InStep left right (Grammar.chain (n + 1) level tighter e)
      (Grammar.chain (k + n + 1) level tighter e) ts := by
  refine .peek ?_ ?_
  · rintro rfl
    rw [Level.connective?_endOfFile hends.left, Level.connective?_endOfFile hends.right]
    exact .pure h
  · rintro t rest rfl
    cases level.connective? t with
    | none => exact .pure h
    | some c =>
        refine .bind (.skip h.tail) fun _ rest hrest => ?_
        exact .bind (ih.operands tighter hrest) fun _ rest hrest => ih.chain level tighter _ hrest

theorem unary_succ (ih : Parallel left right k n) (hends : Endings left right) (h : Unended ts) :
    InStep left right (Grammar.unary (n + 1)) (Grammar.unary (k + n + 1)) ts := by
  have hprimary : InStep left right (Grammar.primary n >>= Grammar.selections n)
      (Grammar.primary (k + n) >>= Grammar.selections (k + n)) ts :=
    .bind (ih.primary h) fun e rest hrest => ih.selections e hrest
  refine .peek ?_ ?_
  · rintro rfl
    rw [UnaryOp.ofToken?_endOfFile hends.left, UnaryOp.ofToken?_endOfFile hends.right]
    exact hprimary
  · rintro t rest rfl
    cases UnaryOp.ofToken? t with
    | none => exact hprimary
    | some op => exact .bind (.skip h.tail) fun _ rest hrest => .map (ih.unary hrest)

theorem selections_succ (ih : Parallel left right k n) (hends : Endings left right) (e : Expr)
    (h : Unended ts) :
    InStep left right (Grammar.selections (n + 1) e) (Grammar.selections (k + n + 1) e) ts := by
  refine .peek ?_ ?_
  · rintro rfl
    simp only [hends.left, hends.right]
    exact .pure h
  · rintro t rest rfl
    cases t.kind with
    | dot =>
        refine .bind (.skip h.tail) fun _ rest hrest => ?_
        exact .bind (.expect hends nofun (.inl rfl) hrest) fun _ rest hrest => ih.selections _ hrest
    | openParen =>
        refine .bind (.skip h.tail) fun _ rest hrest => ?_
        exact .bind (ih.arguments hrest) fun _ rest hrest => ih.selections _ hrest
    | _ => exact .pure h

theorem arguments_succ (ih : Parallel left right k n) (hends : Endings left right) (h : Unended ts) :
    InStep left right (Grammar.arguments (n + 1)) (Grammar.arguments (k + n + 1)) ts := by
  refine .bind (.accept hends nofun h) fun closed rest hrest => ?_
  cases closed with
  | true => exact .pure hrest
  | false => exact .bind (ih.expression hrest) fun _ rest hrest => .map (ih.moreArguments hrest)

theorem moreArguments_succ (ih : Parallel left right k n) (hends : Endings left right)
    (h : Unended ts) :
    InStep left right (Grammar.moreArguments (n + 1)) (Grammar.moreArguments (k + n + 1)) ts := by
  refine .bind (.accept hends nofun h) fun comma rest hrest => ?_
  cases comma with
  | true => exact .bind (ih.expression hrest) fun _ rest hrest => .map (ih.moreArguments hrest)
  | false => exact .bind (.expect hends nofun (.inl rfl) hrest) fun _ rest hrest => .pure hrest

theorem primary_succ (ih : Parallel left right k n) (hends : Endings left right) (h : Unended ts) :
    InStep left right (Grammar.primary (n + 1)) (Grammar.primary (k + n + 1)) ts := by
  refine .peek ?_ ?_
  · rintro rfl
    simp only [hends.left, hends.right]
    exact .throw (.inl rfl)
  · rintro t rest rfl
    cases t.kind with
    | number =>
        refine .bind (.skip h.tail) fun _ rest hrest => ?_
        cases Decimal.read? t.value with
        | none => exact .throw (.inl rfl)
        | some value => exact .pure hrest
    | text => exact .bind (.skip h.tail) fun _ rest hrest => .pure hrest
    | trueWord => exact .bind (.skip h.tail) fun _ rest hrest => .pure hrest
    | falseWord => exact .bind (.skip h.tail) fun _ rest hrest => .pure hrest
    | identifier => exact .bind (.skip h.tail) fun _ rest hrest => .map (.freshId hrest)
    | thisWord => exact .bind (.skip h.tail) fun _ rest hrest => .map (.freshId hrest)
    | openParen =>
        refine .atFunction hends fun ahead => ?_
        cases ahead with
        | true => exact ih.lambda h
        | false =>
            refine .bind (.skip h.tail) fun _ rest hrest => ?_
            refine .bind (ih.expression hrest) fun _ rest hrest => ?_
            exact .bind (.expect hends nofun (.inl rfl) hrest) fun _ rest hrest => .pure hrest
    | _ => exact .throw (.inl rfl)

theorem lambda_succ (ih : Parallel left right k n) (hends : Endings left right) (h : Unended ts) :
    InStep left right (Grammar.lambda (n + 1)) (Grammar.lambda (k + n + 1)) ts := by
  refine .bind (inStep_parameters hends k n h) fun _ rest hrest => ?_
  refine .bind (inStep_optionalType hends hrest) fun _ rest hrest => ?_
  refine .bind (.expect hends nofun (.inl rfl) hrest) fun _ rest hrest => ?_
  exact .map (ih.braced _ hrest)

theorem named_succ (ih : Parallel left right k n) (hends : Endings left right) (name : String)
    (h : Unended ts) :
    InStep left right (Grammar.named (n + 1) name) (Grammar.named (k + n + 1) name) ts := by
  refine .bind (inStep_parameters hends k n h) fun _ rest hrest => ?_
  refine .bind (inStep_optionalType hends hrest) fun _ rest hrest => ?_
  exact .map (ih.braced name hrest)

theorem braced_succ (ih : Parallel left right k n) (hends : Endings left right) (owner : String)
    (h : Unended ts) :
    InStep left right (Grammar.braced (n + 1) owner) (Grammar.braced (k + n + 1) owner) ts :=
  .bind (.expect hends nofun (.inl rfl) h) fun _ _ hrest => ih.statements hrest

theorem statements_succ (ih : Parallel left right k n) (hends : Endings left right) (h : Unended ts) :
    InStep left right (Grammar.statements (n + 1)) (Grammar.statements (k + n + 1)) ts := by
  refine .peek ?_ ?_
  · rintro rfl
    simp only [hends.left, hends.right]
    exact .throw (.inl rfl)
  · rintro t rest rfl
    have hmore : InStep left right (do return (← Grammar.statement n) :: (← Grammar.statements n))
        (do return (← Grammar.statement (k + n)) :: (← Grammar.statements (k + n))) (t :: rest) :=
      .bind (ih.statement h) fun _ rest hrest => .map (ih.statements hrest)
    cases t.kind with
    | closeBrace => exact .bind (.skip h.tail) fun _ rest hrest => .pure hrest
    | endOfFile => exact .throw (.inl rfl)
    | _ => exact hmore

theorem statement_succ (ih : Parallel left right k n) (hends : Endings left right) (h : Unended ts) :
    InStep left right (Grammar.statement (n + 1)) (Grammar.statement (k + n + 1)) ts := by
  refine .peek ?_ ?_
  · rintro rfl
    simp only [hends.left, hends.right]
    exact ih.simple h
  · rintro t rest rfl
    cases t.kind with
    | funcWord =>
        refine .bind (.skip h.tail) fun _ rest hrest => ?_
        refine .bind (.expect hends nofun (.inl rfl) hrest) fun name rest hrest => ?_
        exact .map (ih.named name.value hrest)
    | classWord =>
        refine .bind (.skip h.tail) fun _ rest hrest => ?_
        refine .bind (.expect hends nofun (.inl rfl) hrest) fun _ rest hrest => ?_
        refine .bind (.expect hends nofun (.inl rfl) hrest) fun _ rest hrest => ?_
        exact .map (ih.methods hrest)
    | returnWord =>
        refine .bind (.skip h.tail) fun _ _ hrest => .peek ?_ ?_
        · rintro rfl
          simp only [hends.left, hends.right, or_true, if_true]
          exact .pure hrest
        · rintro u last rfl
          split
          · exact .pure hrest
          · exact .map (ih.expression hrest)
    | ifWord => exact .bind (.skip h.tail) fun _ rest hrest => ih.conditional hrest
    | whileWord =>
        refine .bind (.skip h.tail) fun _ rest hrest => ?_
        exact .bind (ih.expression hrest) fun _ rest hrest => .map (ih.braced _ hrest)
    | openBrace => exact .map (ih.braced _ h)
    | _ => exact ih.simple h

theorem conditional_succ (ih : Parallel left right k n) (hends : Endings left right)
    (h : Unended ts) :
    InStep left right (Grammar.conditional (n + 1)) (Grammar.conditional (k + n + 1)) ts := by
  refine .bind (ih.expression h) fun _ rest hrest => ?_
  refine .bind (ih.braced _ hrest) fun _ rest hrest => ?_
  refine .bind (.accept hends nofun hrest) fun otherwise rest hrest => ?_
  cases otherwise with
  | false => exact .pure hrest
  | true =>
      refine .bind (.accept hends nofun hrest) fun another rest hrest => ?_
      cases another with
      | true => exact .map (ih.conditional hrest)
      | false => exact .map (ih.braced _ hrest)

theorem methods_succ (ih : Parallel left right k n) (hends : Endings left right) (h : Unended ts) :
    InStep left right (Grammar.methods (n + 1)) (Grammar.methods (k + n + 1)) ts := by
  refine .peek ?_ ?_
  · rintro rfl
    simp only [hends.left, hends.right]
    exact .throw (.inl rfl)
  · rintro t rest rfl
    cases t.kind with
    | closeBrace => exact .bind (.skip h.tail) fun _ rest hrest => .pure hrest
    | funcWord => exact .bind (.skip h.tail) fun _ rest hrest => ih.methods hrest
    | identifier =>
        refine .bind (.skip h.tail) fun _ rest hrest => ?_
        exact .bind (ih.named t.value hrest) fun _ rest hrest => .map (ih.methods hrest)
    | _ => exact .throw (.inl rfl)

theorem updateOf (e : Expr) (op : UpdateOp) (h : Unended ts) :
    InStep left right (Grammar.updateOf e op) (Grammar.updateOf e op) ts := by
  cases e with
  | var name id => exact .pure h
  | _ => exact .throw (.inl rfl)

theorem simple_succ (ih : Parallel left right k n) (hends : Endings left right) (h : Unended ts) :
    InStep left right (Grammar.simple (n + 1)) (Grammar.simple (k + n + 1)) ts := by
  refine .bind (ih.expression h) fun e _ hrest => .peek ?_ ?_
  · rintro rfl
    simp only [hends.left, hends.right]
    exact .pure hrest
  · rintro t more rfl
    cases t.kind with
    | declare =>
        refine .bind (.skip hrest.tail) fun _ rest hrest => ?_
        cases e with
        | var name id => exact .map (ih.expression hrest)
        | _ => exact .throw (.inl rfl)
    | equals =>
        refine .bind (.skip hrest.tail) fun _ rest hrest => ?_
        refine .bind (ih.expression hrest) fun value rest hrest => ?_
        cases e with
        | var name id => exact .pure hrest
        | member object property => exact .pure hrest
        | _ => exact .throw (.inl rfl)
    | increment => exact .bind (.skip hrest.tail) fun _ rest hrest => updateOf e .increment hrest
    | decrement => exact .bind (.skip hrest.tail) fun _ rest hrest => updateOf e .decrement hrest
    | _ => exact .pure hrest

end Parallel

/-- All rules of the grammar keep in step. -/
theorem parallel (hends : Endings left right) (k n : Nat) : Parallel left right k n := by
  induction n with
  | zero => exact .zero
  | succ n ih =>
      exact {
        expression := ih.operands Level.all
        operands := fun levels _ => ih.operands_succ levels
        chain := fun level tighter e _ => ih.chain_succ hends level tighter e
        unary := ih.unary_succ hends
        selections := fun e _ => ih.selections_succ hends e
        arguments := ih.arguments_succ hends
        moreArguments := ih.moreArguments_succ hends
        primary := ih.primary_succ hends
        lambda := ih.lambda_succ hends
        named := fun name _ => ih.named_succ hends name
        braced := fun owner _ => ih.braced_succ hends owner
        statements := ih.statements_succ hends
        statement := ih.statement_succ hends
        conditional := ih.conditional_succ hends
        methods := ih.methods_succ hends
        simple := ih.simple_succ hends }

/-! ### Whole programs -/

/-- Two parses of whole programs have the same outcome up to what stands behind the end of the source, or
    the first has given up. -/
inductive ProgramsAgree (left right : List Token) :
    EStateM.Result (Located ParseError) Cursor Program →
    EStateM.Result (Located ParseError) Cursor Program → Prop where
  | gaveUp (line : Nat) (c : Cursor) (other : EStateM.Result (Located ParseError) Cursor Program) :
      ProgramsAgree left right (.error ⟨line, .noToken⟩ c) other
  | ok (p : Program) (drawn : Nat) : ProgramsAgree left right (.ok p ⟨left, drawn⟩) (.ok p ⟨right, drawn⟩)
  | error {e e' : ParseError} (line : Nat) (rest : List Token) (drawn : Nat)
      (alike : FailAlike left right e e') :
      ProgramsAgree left right (.error ⟨line, e⟩ ⟨rest ++ left, drawn⟩)
        (.error ⟨line, e'⟩ ⟨rest ++ right, drawn⟩)

theorem program_agree (hends : Endings left right) (k n : Nat) (h : Unended ts) (drawn : Nat) :
    ProgramsAgree left right (program n ⟨ts ++ left, drawn⟩) (program (k + n) ⟨ts ++ right, drawn⟩) := by
  induction n generalizing ts drawn with
  | zero => exact .gaveUp 0 _ _
  | succ n ih =>
      cases ts with
      | nil =>
          have hleft := program_endOfFile n drawn hends.left
          have hright := program_endOfFile (k + n) drawn hends.right
          rw [List.nil_append, List.nil_append, hleft, ← Nat.add_assoc, hright]
          exact .ok [] drawn
      | cons t rest =>
          have ht (more : List Token) : (front (t :: rest ++ more)).kind ≠ .endOfFile :=
            h t List.mem_cons_self
          have hleft := program_statement n drawn (ht left)
          have hright := program_statement (k + n) drawn (ht right)
          rw [hleft, ← Nat.add_assoc, hright]
          have hrun := (parallel hends k n).statement h drawn
          generalize statement n ⟨t :: rest ++ left, drawn⟩ = r at hrun
          generalize statement (k + n) ⟨t :: rest ++ right, drawn⟩ = r' at hrun
          cases hrun with
          | gaveUp c other => exact .gaveUp _ c _
          | error more drawn' alike => exact .error _ more drawn' alike
          | ok s drawn' unended =>
              have hmore := ih unended drawn'
              dsimp only
              generalize program n _ = r at hmore
              generalize program (k + n) _ = r' at hmore
              cases hmore with
              | gaveUp line c other => exact .gaveUp line c _
              | ok p drawn'' => exact .ok _ drawn''
              | error line more drawn'' alike => exact .error line more drawn'' alike

end Grammar

/-- Two parses have the same outcome, but for what is shown of an end of the source. -/
inductive ParsesAgree (left right : List Token) : Parse → Parse → Prop where
  | ok (p : Program) (drawn : Nat) : ParsesAgree left right ⟨.ok p, drawn⟩ ⟨.ok p, drawn⟩
  | error {e e' : ParseError} (line drawn : Nat) (alike : Parser.FailAlike left right e e') :
      ParsesAgree left right ⟨.error ⟨line, e⟩, drawn⟩ ⟨.error ⟨line, e'⟩, drawn⟩

section Parses

open Kiln.Parser Grammar

variable {left right ts : List Token}

/-- What stands behind the end of the source makes no difference to a parse, which is never nested too deep.
    -/
theorem parse_agree (hends : Endings left right) (hshorter : left.length ≤ right.length) (h : Unended ts)
    (drawn : Nat) : ParsesAgree left right (parse (ts ++ left) drawn) (parse (ts ++ right) drawn) := by
  obtain ⟨k, hk⟩ : ∃ k, depthFor (ts ++ right) = k + depthFor (ts ++ left) := by
    refine ⟨16 * (right.length - left.length), ?_⟩
    simp only [depthFor, List.length_append]
    omega
  have hrun := program_agree hends k (depthFor (ts ++ left)) h drawn
  rw [parse, parse, hk]
  generalize hr : program (depthFor (ts ++ left)) _ = r at hrun
  generalize program (k + depthFor (ts ++ left)) _ = r' at hrun
  cases hrun with
  | gaveUp line c other => cases program_isInternal hr (depthFor_enough _)
  | ok p drawn' => exact .ok p drawn'
  | error line rest drawn' alike => exact .error line drawn' alike

/-- Where the same end of the source is seen, the failures are the same. -/
theorem Parser.FailAlike.eq {e e' : ParseError} (h : FailAlike left right e e')
    (hfront : front left = front right) : e' = e := by
  obtain rfl | ⟨rfl, rfl⟩ := h
  · rfl
  · rw [hfront]

/-- The end of the source is a hard end. Whatever stands behind it, a parse gives the same program or the same
    failure on the same line, and draws the same ids. Where the tokens only run out, the program and the ids
    are the same too; a failure is on the same line and the same, but that it has no token to show where it
    misses a parameter at the end. -/
theorem parse_hard_end (tokens : List Token) (h : Unended tokens) (z : Token)
    (hz : z.kind = .endOfFile) (behind : List Token) (drawn : Nat) :
    parse (tokens ++ z :: behind) drawn = parse (tokens ++ [z]) drawn ∧
      (parse tokens drawn).drawn = (parse (tokens ++ [z]) drawn).drawn ∧
      (∀ p, (parse tokens drawn).result = .ok p ↔ (parse (tokens ++ [z]) drawn).result = .ok p) ∧
      ∀ e, (parse tokens drawn).result = .error e →
        ∃ e', (parse (tokens ++ [z]) drawn).result = .error e' ∧ e'.line = e.line ∧
          (e'.value = e.value ∨
            e.value = .expectedParameter "" ∧ e'.value = .expectedParameter z.value) := by
  constructor
  · have hends : Endings [z] (z :: behind) := ⟨hz, hz⟩
    have hagree := parse_agree hends (by simp) h drawn
    generalize parse (tokens ++ [z]) drawn = r at hagree
    generalize parse (tokens ++ z :: behind) drawn = r' at hagree
    cases hagree with
    | ok p drawn' => rfl
    | error line drawn' alike => rw [alike.eq rfl]
  · have hends : Endings [] [z] := ⟨rfl, hz⟩
    have hagree := parse_agree hends (by simp) h drawn
    rw [List.append_nil] at hagree
    generalize parse tokens drawn = r at hagree
    generalize parse (tokens ++ [z]) drawn = r' at hagree
    cases hagree with
    | ok p drawn' => exact ⟨rfl, fun _ => Iff.rfl, nofun⟩
    | error line drawn' alike =>
        refine ⟨rfl, fun _ => ⟨nofun, nofun⟩, ?_⟩
        rintro _ ⟨⟩
        exact ⟨_, rfl, rfl, alike⟩

/-- Parameters that go on behind the end of the source. -/
theorem parse_hard_end_of_parameters :
    let tokens : List Token := [⟨.identifier, "x", 0⟩, ⟨.funcWord, "func", 1⟩, ⟨.identifier, "f", 1⟩,
      ⟨.openParen, "(", 1⟩, ⟨.identifier, "a", 1⟩, ⟨.comma, ",", 1⟩]
    let z : Token := ⟨.endOfFile, "end", 2⟩
    let behind : List Token := [⟨.identifier, "b", 2⟩, ⟨.closeParen, ")", 2⟩]
    parse (tokens ++ z :: behind) 5 = parse (tokens ++ [z]) 5 ∧
      (parse (tokens ++ [z]) 5).drawn = 6 ∧
      (parse tokens 5).result = .error ⟨1, .expectedParameter ""⟩ ∧
      ∃ e, (parse (tokens ++ [z]) 5).result = .error e ∧ e.line = 1 := by
  intro tokens z behind
  have hunended : Unended tokens := by
    rw [Unended]
    decide
  obtain ⟨hbehind, hdrawn, -, herror⟩ := parse_hard_end tokens hunended z rfl behind 5
  have hfails : parse tokens 5 = ⟨.error ⟨1, .expectedParameter ""⟩, 6⟩ := by rfl
  rw [hfails] at hdrawn
  obtain ⟨e, he, hline, -⟩ := herror ⟨1, .expectedParameter ""⟩ (by rw [hfails])
  exact ⟨hbehind, hdrawn.symm, by rw [hfails], e, he, hline⟩

end Parses

end Kiln
