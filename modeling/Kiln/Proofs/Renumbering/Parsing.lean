/-
Module: Kiln.Proofs.Renumbering.Parsing
Purpose: Parsing when other ids have been drawn before. The grammar looks at tokens only; ids are drawn one
  after the other and put into the tree. So a parse that starts `k` ids later takes the same tokens, fails for
  the same reasons on the same lines, and gives the same tree with other ids. The ids that a parse draws are
  those between the counts before and after it.
Main exports: Parser.Follows, Parser.Carries, Carries.bind, Grammar.carries, parse_shift
-/
import Kiln.Parser.Grammar
import Kiln.Proofs.Renumbering.Tree

namespace Kiln

/-- The id that is drawn after `drawn` other ids. -/
def NodeId.nth (drawn : Nat) : NodeId := ⟨drawn % NodeId.count⟩

/-- The renumbering takes the ids that are drawn from `first` up to `last` to those drawn `k` ids later. -/
def Follows (f : NodeId → NodeId) (k first last : Nat) : Prop :=
  ∀ i, first ≤ i → i < last → f (.nth i) = .nth (i + k)

theorem Follows.mono {f : NodeId → NodeId} {k first last first' last' : Nat}
    (h : Follows f k first last) (hfirst : first ≤ first') (hlast : last' ≤ last) :
    Follows f k first' last' :=
  fun i hi hi' => h i (Nat.le_trans hfirst hi) (Nat.lt_of_lt_of_le hi' hlast)

/-- The cursor when `k` more ids have been drawn. -/
def Cursor.shift (k : Nat) (c : Cursor) : Cursor := ⟨c.tokens, c.drawn + k⟩

namespace Parser

variable {α β ε : Type}

/-- How many ids have been drawn at the end of a parse. -/
def drawnAfter : EStateM.Result ε Cursor α → Nat
  | .ok _ c => c.drawn
  | .error _ c => c.drawn

/-- The outcome of a parse that starts `k` ids later, where `g` renumbers what the parse gives. -/
def shifted (k : Nat) (g : α → α) : EStateM.Result ε Cursor α → EStateM.Result ε Cursor α
  | .ok a c => .ok (g a) (c.shift k)
  | .error e c => .error e (c.shift k)

/-- Started `k` ids later, the second parser does what the first does, up to the renumbering `g` of what it
    gives; and ids are only ever drawn. -/
def Carries (f : NodeId → NodeId) (k : Nat) (g : α → α) (p p' : EStateM ε Cursor α) : Prop :=
  ∀ c, c.drawn ≤ drawnAfter (p c) ∧
    (Follows f k c.drawn (drawnAfter (p c)) → p' (c.shift k) = shifted k g (p c))

namespace Carries

variable {f : NodeId → NodeId} {k : Nat} {g : α → α} {h : β → β}

theorem pure (a : α) : Carries f k g (pure a : EStateM ε Cursor α) (pure (g a)) :=
  fun c => ⟨Nat.le_refl c.drawn, fun _ => rfl⟩

theorem throw (e : ε) : Carries f k g (throw e : EStateM ε Cursor α) (throw e) :=
  fun c => ⟨Nat.le_refl c.drawn, fun _ => rfl⟩

theorem bind {p p' : EStateM ε Cursor α} {q q' : α → EStateM ε Cursor β} (hp : Carries f k g p p')
    (hq : ∀ a, Carries f k h (q a) (q' (g a))) : Carries f k h (p >>= q) (p' >>= q') := by
  intro c
  obtain ⟨hle, hshift⟩ := hp c
  simp only [Bind.bind, EStateM.bind]
  cases hrun : p c with
  | error e c₁ =>
      rw [hrun] at hle hshift
      constructor
      · exact hle
      · intro hfollows
        rw [hshift hfollows]
        rfl
  | ok a c₁ =>
      rw [hrun] at hle hshift
      obtain ⟨hle', hshift'⟩ := hq a c₁
      constructor
      · exact Nat.le_trans hle hle'
      · intro hfollows
        rw [hshift (hfollows.mono (Nat.le_refl _) hle')]
        exact hshift' (hfollows.mono hle (Nat.le_refl _))

/-- A parser whose result is only wrapped. -/
theorem map {p p' : EStateM ε Cursor α} {wrap wrap' : α → β} (hp : Carries f k g p p')
    (hwrap : ∀ a, h (wrap a) = wrap' (g a)) :
    Carries f k h (do return wrap (← p)) (do return wrap' (← p')) := by
  apply hp.bind
  intro a
  rw [← hwrap a]
  exact pure (wrap a)

/-- A parser that draws no ids and looks at none. -/
theorem of_tokens {p : EStateM ε Cursor α}
    (hp : ∀ ts, (∃ a rest, ∀ drawn, p ⟨ts, drawn⟩ = .ok a ⟨rest, drawn⟩) ∨
      ∃ e rest, ∀ drawn, p ⟨ts, drawn⟩ = .error e ⟨rest, drawn⟩) : Carries f k id p p := by
  rintro ⟨ts, drawn⟩
  rcases hp ts with ⟨a, rest, hrun⟩ | ⟨e, rest, hrun⟩
  · rw [hrun, Cursor.shift, hrun]
    exact ⟨Nat.le_refl _, fun _ => rfl⟩
  · rw [hrun, Cursor.shift, hrun]
    exact ⟨Nat.le_refl _, fun _ => rfl⟩

theorem peek : Carries f k id peek peek :=
  fun c => ⟨Nat.le_refl c.drawn, fun _ => rfl⟩

theorem atFunction : Carries f k id atFunction atFunction :=
  fun c => ⟨Nat.le_refl c.drawn, fun _ => rfl⟩

theorem take : Carries f k id take take := by
  apply of_tokens
  intro ts
  cases ts with
  | nil => exact .inr ⟨.noToken, [], fun _ => rfl⟩
  | cons t rest => exact .inl ⟨t, rest, fun _ => rfl⟩

theorem skip : Carries f k id skip skip := bind take fun _ => pure ()

theorem expect (kind : TokenKind) (cause : Token → ParseError) :
    Carries f k id (expect kind cause) (expect kind cause) := by
  apply bind peek
  intro t
  by_cases hkind : t.kind = kind
  · simp only [id_eq, hkind, if_true]
    exact take
  · simp only [id_eq, hkind, if_false]
    exact throw _

theorem accept (kind : TokenKind) : Carries f k id (accept kind) (accept kind) := by
  apply bind peek
  intro t
  by_cases hkind : t.kind = kind
  · simp only [id_eq, hkind, if_true]
    exact bind skip fun _ => pure true
  · simp only [id_eq, hkind, if_false]
    exact pure false

theorem freshId : Carries f k f freshId freshId := by
  intro c
  constructor
  · exact Nat.le_succ c.drawn
  · intro hfollows
    have hid : f (.nth c.drawn) = .nth (c.drawn + k) :=
      hfollows c.drawn (Nat.le_refl _) (Nat.lt_succ_self _)
    have hdrawn : c.drawn + 1 + k = c.drawn + k + 1 := Nat.add_right_comm _ _ _
    simp only [Parser.freshId, shifted, Cursor.shift, hdrawn]
    exact congrArg (EStateM.Result.ok · _) hid.symm

end Carries

end Parser

/-! ### The rules of the grammar -/

namespace Grammar

open Kiln.Parser

variable {f : NodeId → NodeId} {k n : Nat}

/-- Names and types of parameters are tokens. -/
theorem carries_optionalType : Carries f k id optionalType optionalType := by
  apply Carries.bind .peek
  intro t
  by_cases hkind : t.kind = .identifier
  · simp only [id_eq, hkind, if_true]
    exact Carries.map .take fun _ => rfl
  · simp only [id_eq, hkind, if_false]
    exact Carries.pure none

theorem carries_parameter : Carries f k id parameter parameter := by
  apply Carries.bind (.expect _ _)
  intro name
  apply Carries.bind (.accept _)
  intro _
  exact Carries.map carries_optionalType fun _ => rfl

theorem carries_parametersFrom (n : Nat) : Carries f k id (parametersFrom n) (parametersFrom n) := by
  induction n with
  | zero => exact Carries.throw _
  | succ n ih =>
      have hmore : ∀ p : Param, Carries f k id (do return p :: (← parametersFrom n))
          (do return p :: (← parametersFrom n)) := fun p => Carries.map ih fun _ => rfl
      rw [parametersFrom]
      apply Carries.bind (.accept _)
      intro closed
      cases closed with
      | true => exact Carries.pure []
      | false =>
          apply Carries.bind carries_parameter
          intro p
          apply Carries.bind (.accept _)
          intro comma
          cases comma with
          | true =>
              apply Carries.bind .peek
              intro t
              by_cases hkind : t.kind = .identifier
              · simpa [hkind] using hmore p
              · simp only [id_eq, ne_eq, hkind, not_false_eq_true, if_true]
                exact Carries.bind (g := id) (.throw _) fun _ => hmore p
          | false =>
              apply Carries.bind .peek
              intro t
              by_cases hkind : t.kind = .closeParen
              · simpa [hkind] using hmore p
              · simp only [id_eq, ne_eq, hkind, not_false_eq_true, if_true]
                exact Carries.bind (g := id) (.throw _) fun _ => hmore p

theorem carries_parameters (n : Nat) : Carries f k id (parameters n) (parameters n) :=
  Carries.bind (.expect _ _) fun _ => carries_parametersFrom n

/-- Every rule of the grammar, at one depth, does the same when it starts `k` ids later. -/
structure Carried (f : NodeId → NodeId) (k n : Nat) : Prop where
  expression : Carries f k (Expr.renumber f) (expression n) (expression n)
  operands : ∀ levels, Carries f k (Expr.renumber f) (operands n levels) (operands n levels)
  chain : ∀ level tighter left, Carries f k (Expr.renumber f) (chain n level tighter left)
    (chain n level tighter (left.renumber f))
  unary : Carries f k (Expr.renumber f) (unary n) (unary n)
  selections : ∀ e, Carries f k (Expr.renumber f) (selections n e) (selections n (e.renumber f))
  arguments : Carries f k (Expr.renumberAll f) (arguments n) (arguments n)
  moreArguments : Carries f k (Expr.renumberAll f) (moreArguments n) (moreArguments n)
  primary : Carries f k (Expr.renumber f) (primary n) (primary n)
  lambda : Carries f k (Expr.renumber f) (lambda n) (lambda n)
  named : ∀ name, Carries f k (Function.renumber f) (named n name) (named n name)
  braced : ∀ owner, Carries f k (Stmt.renumberAll f) (braced n owner) (braced n owner)
  statements : Carries f k (Stmt.renumberAll f) (statements n) (statements n)
  statement : Carries f k (Stmt.renumber f) (statement n) (statement n)
  conditional : Carries f k (Stmt.renumber f) (conditional n) (conditional n)
  methods : Carries f k (Function.renumberAll f) (methods n) (methods n)
  simple : Carries f k (Stmt.renumber f) (simple n) (simple n)

namespace Carried

theorem zero : Carried f k 0 := by
  constructor <;> intros <;> exact Carries.throw _

theorem operands_succ (ih : Carried f k n) (levels : List Level) :
    Carries f k (Expr.renumber f) (Grammar.operands (n + 1) levels)
      (Grammar.operands (n + 1) levels) := by
  cases levels with
  | nil => exact ih.unary
  | cons level tighter => exact Carries.bind (ih.operands tighter) (ih.chain level tighter)

theorem renumber_join (c : Connective) (left right : Expr) :
    (c.join left right).renumber f = c.join (left.renumber f) (right.renumber f) := by
  cases c <;> rfl

theorem chain_succ (ih : Carried f k n) (level : Level) (tighter : List Level) (left : Expr) :
    Carries f k (Expr.renumber f) (Grammar.chain (n + 1) level tighter left)
      (Grammar.chain (n + 1) level tighter (left.renumber f)) := by
  apply Carries.bind .peek
  intro t
  simp only [id_eq]
  cases level.connective? t with
  | none => exact Carries.pure left
  | some c =>
      apply Carries.bind .skip
      intro _
      apply Carries.bind (ih.operands tighter)
      intro right
      rw [← renumber_join]
      exact ih.chain level tighter _

theorem unary_succ (ih : Carried f k n) :
    Carries f k (Expr.renumber f) (Grammar.unary (n + 1)) (Grammar.unary (n + 1)) := by
  apply Carries.bind .peek
  intro t
  simp only [id_eq]
  cases UnaryOp.ofToken? t with
  | none => exact Carries.bind ih.primary ih.selections
  | some op =>
      apply Carries.bind .skip
      intro _
      exact Carries.map ih.unary fun _ => rfl

theorem selections_succ (ih : Carried f k n) (e : Expr) :
    Carries f k (Expr.renumber f) (Grammar.selections (n + 1) e)
      (Grammar.selections (n + 1) (e.renumber f)) := by
  apply Carries.bind .peek
  intro t
  simp only [id_eq]
  cases t.kind with
  | dot =>
      apply Carries.bind .skip
      intro _
      apply Carries.bind (.expect _ _)
      intro property
      exact ih.selections (.member e property.value)
  | openParen =>
      apply Carries.bind .skip
      intro _
      apply Carries.bind ih.arguments
      intro args
      exact ih.selections (.call e args)
  | _ => exact Carries.pure e

theorem arguments_succ (ih : Carried f k n) :
    Carries f k (Expr.renumberAll f) (Grammar.arguments (n + 1)) (Grammar.arguments (n + 1)) := by
  apply Carries.bind (.accept _)
  intro closed
  cases closed with
  | true => exact Carries.pure []
  | false =>
      apply Carries.bind ih.expression
      intro first
      exact Carries.map ih.moreArguments fun _ => rfl

theorem moreArguments_succ (ih : Carried f k n) :
    Carries f k (Expr.renumberAll f) (Grammar.moreArguments (n + 1))
      (Grammar.moreArguments (n + 1)) := by
  apply Carries.bind (.accept _)
  intro comma
  cases comma with
  | true =>
      apply Carries.bind ih.expression
      intro next
      exact Carries.map ih.moreArguments fun _ => rfl
  | false => exact Carries.bind (.expect _ _) fun _ => Carries.pure []

theorem primary_succ (ih : Carried f k n) :
    Carries f k (Expr.renumber f) (Grammar.primary (n + 1)) (Grammar.primary (n + 1)) := by
  apply Carries.bind .peek
  intro t
  simp only [id_eq]
  cases t.kind with
  | number =>
      apply Carries.bind .skip
      intro _
      cases Decimal.read? t.value with
      | none => exact Carries.throw _
      | some value => exact Carries.pure (Expr.number value)
  | text => exact Carries.bind .skip fun _ => Carries.pure (Expr.text t.value)
  | trueWord => exact Carries.bind .skip fun _ => Carries.pure (Expr.bool true)
  | falseWord => exact Carries.bind .skip fun _ => Carries.pure (Expr.bool false)
  | identifier =>
      apply Carries.bind .skip
      intro _
      exact Carries.map .freshId fun _ => rfl
  | thisWord =>
      apply Carries.bind .skip
      intro _
      exact Carries.map .freshId fun _ => rfl
  | openParen =>
      apply Carries.bind .atFunction
      intro ahead
      cases ahead with
      | true => exact ih.lambda
      | false =>
          apply Carries.bind .skip
          intro _
          apply Carries.bind ih.expression
          intro e
          exact Carries.bind (.expect _ _) fun _ => Carries.pure e
  | _ => exact Carries.throw _

theorem lambda_succ (ih : Carried f k n) :
    Carries f k (Expr.renumber f) (Grammar.lambda (n + 1)) (Grammar.lambda (n + 1)) := by
  apply Carries.bind (carries_parameters n)
  intro params
  apply Carries.bind carries_optionalType
  intro returnType
  apply Carries.bind (.expect _ _)
  intro _
  exact Carries.map (ih.braced _) fun _ => rfl

theorem named_succ (ih : Carried f k n) (name : String) :
    Carries f k (Function.renumber f) (Grammar.named (n + 1) name)
      (Grammar.named (n + 1) name) := by
  apply Carries.bind (carries_parameters n)
  intro params
  apply Carries.bind carries_optionalType
  intro returnType
  exact Carries.map (ih.braced name) fun _ => rfl

theorem braced_succ (ih : Carried f k n) (owner : String) :
    Carries f k (Stmt.renumberAll f) (Grammar.braced (n + 1) owner) (Grammar.braced (n + 1) owner) :=
  Carries.bind (.expect _ _) fun _ => ih.statements

theorem statements_succ (ih : Carried f k n) :
    Carries f k (Stmt.renumberAll f) (Grammar.statements (n + 1)) (Grammar.statements (n + 1)) := by
  have hmore : Carries f k (Stmt.renumberAll f)
      (do return (← Grammar.statement n) :: (← Grammar.statements n))
      (do return (← Grammar.statement n) :: (← Grammar.statements n)) := by
    apply Carries.bind ih.statement
    intro s
    exact Carries.map ih.statements fun _ => rfl
  apply Carries.bind .peek
  intro t
  simp only [id_eq]
  cases t.kind with
  | closeBrace => exact Carries.bind .skip fun _ => Carries.pure []
  | endOfFile => exact Carries.throw _
  | _ => exact hmore

theorem statement_succ (ih : Carried f k n) :
    Carries f k (Stmt.renumber f) (Grammar.statement (n + 1)) (Grammar.statement (n + 1)) := by
  apply Carries.bind .peek
  intro t
  simp only [id_eq]
  cases t.kind with
  | funcWord =>
      apply Carries.bind .skip
      intro _
      apply Carries.bind (.expect _ _)
      intro name
      exact Carries.map (ih.named _) fun _ => rfl
  | classWord =>
      apply Carries.bind .skip
      intro _
      apply Carries.bind (.expect _ _)
      intro name
      apply Carries.bind (.expect _ _)
      intro _
      exact Carries.map ih.methods fun _ => rfl
  | returnWord =>
      apply Carries.bind .skip
      intro _
      apply Carries.bind .peek
      intro next
      by_cases hlast : next.kind = .closeBrace ∨ next.kind = .endOfFile
      · simp only [id_eq, hlast, if_true]
        exact Carries.pure (Stmt.ret none)
      · simp only [id_eq, hlast, if_false]
        exact Carries.map ih.expression fun _ => rfl
  | ifWord => exact Carries.bind .skip fun _ => ih.conditional
  | whileWord =>
      apply Carries.bind .skip
      intro _
      apply Carries.bind ih.expression
      intro test
      exact Carries.map (ih.braced _) fun _ => rfl
  | openBrace => exact Carries.map (ih.braced _) fun _ => rfl
  | _ => exact ih.simple

theorem conditional_succ (ih : Carried f k n) :
    Carries f k (Stmt.renumber f) (Grammar.conditional (n + 1)) (Grammar.conditional (n + 1)) := by
  apply Carries.bind ih.expression
  intro test
  apply Carries.bind (ih.braced _)
  intro thenBody
  apply Carries.bind (.accept _)
  intro otherwise
  cases otherwise with
  | false => exact Carries.pure (Stmt.ifElse test (.block thenBody) none)
  | true =>
      apply Carries.bind (.accept _)
      intro another
      cases another with
      | true => exact Carries.map ih.conditional fun _ => rfl
      | false => exact Carries.map (ih.braced _) fun _ => rfl

theorem methods_succ (ih : Carried f k n) :
    Carries f k (Function.renumberAll f) (Grammar.methods (n + 1)) (Grammar.methods (n + 1)) := by
  apply Carries.bind .peek
  intro t
  simp only [id_eq]
  cases t.kind with
  | closeBrace => exact Carries.bind .skip fun _ => Carries.pure []
  | funcWord => exact Carries.bind .skip fun _ => ih.methods
  | identifier =>
      apply Carries.bind .skip
      intro _
      apply Carries.bind (ih.named t.value)
      intro function
      exact Carries.map ih.methods fun _ => rfl
  | _ => exact Carries.throw _

theorem updateOf (left : Expr) (op : UpdateOp) :
    Carries f k (Stmt.renumber f) (Grammar.updateOf left op)
      (Grammar.updateOf (left.renumber f) op) := by
  cases left with
  | var name id => exact Carries.pure (Stmt.update ⟨name, id⟩ op)
  | _ => exact Carries.throw _

theorem simple_succ (ih : Carried f k n) :
    Carries f k (Stmt.renumber f) (Grammar.simple (n + 1)) (Grammar.simple (n + 1)) := by
  apply Carries.bind ih.expression
  intro left
  apply Carries.bind .peek
  intro t
  simp only [id_eq]
  cases t.kind with
  | declare =>
      apply Carries.bind .skip
      intro _
      cases left with
      | var name id => exact Carries.map ih.expression fun _ => rfl
      | _ => exact Carries.throw _
  | equals =>
      apply Carries.bind .skip
      intro _
      apply Carries.bind ih.expression
      intro value
      cases left with
      | var name id => exact Carries.pure (Stmt.assign ⟨name, id⟩ value)
      | member object property => exact Carries.pure (Stmt.setMember object property value)
      | _ => exact Carries.throw _
  | increment => exact Carries.bind .skip fun _ => updateOf left .increment
  | decrement => exact Carries.bind .skip fun _ => updateOf left .decrement
  | _ => exact Carries.pure (Stmt.expr left)

end Carried

/-- All rules of the grammar do the same when they start `k` ids later. -/
theorem carried (f : NodeId → NodeId) (k n : Nat) : Carried f k n := by
  induction n with
  | zero => exact .zero
  | succ n ih =>
      exact {
        expression := ih.operands Level.all
        operands := ih.operands_succ
        chain := ih.chain_succ
        unary := ih.unary_succ
        selections := ih.selections_succ
        arguments := ih.arguments_succ
        moreArguments := ih.moreArguments_succ
        primary := ih.primary_succ
        lambda := ih.lambda_succ
        named := ih.named_succ
        braced := ih.braced_succ
        statements := ih.statements_succ
        statement := ih.statement_succ
        conditional := ih.conditional_succ
        methods := ih.methods_succ
        simple := ih.simple_succ }

/-- A failure that is placed on a line. -/
theorem carries_adaptExcept {α ε ε' : Type} {g : α → α} {p p' : EStateM ε Cursor α} (place : ε → ε')
    (h : Carries f k g p p') :
    Carries f k g (EStateM.adaptExcept place p) (EStateM.adaptExcept place p') := by
  intro c
  obtain ⟨hle, hshift⟩ := h c
  unfold EStateM.adaptExcept
  cases hrun : p c with
  | ok a c₁ =>
      rw [hrun] at hle hshift
      exact ⟨hle, fun hfollows => by rw [hshift hfollows]; rfl⟩
  | error e c₁ =>
      rw [hrun] at hle hshift
      exact ⟨hle, fun hfollows => by rw [hshift hfollows]; rfl⟩

theorem carries_program (f : NodeId → NodeId) (k n : Nat) :
    Carries f k (Program.renumber f) (program n) (program n) := by
  induction n with
  | zero => exact Carries.throw _
  | succ n ih =>
      let get : EStateM (Located ParseError) Cursor Token := fun c => .ok (front c.tokens) c
      have hget : Carries f k id get get := fun c => ⟨Nat.le_refl c.drawn, fun _ => rfl⟩
      rw [program_succ]
      apply Carries.bind hget
      intro t
      by_cases hkind : t.kind = .endOfFile
      · simp only [id_eq, hkind, if_true]
        exact Carries.pure []
      · simp only [id_eq, hkind, if_false]
        apply Carries.bind (carries_adaptExcept _ (carried f k n).statement)
        intro s
        exact Carries.map ih fun _ => rfl

end Grammar

/-- A parse that starts `k` ids later gives the same program with other ids, or fails in the same way. Either
    way it draws as many ids. -/
theorem parse_shift {f : NodeId → NodeId} {k drawn : Nat} (tokens : List Token)
    (h : Follows f k drawn (parse tokens drawn).drawn) :
    parse tokens (drawn + k) =
      ⟨(parse tokens drawn).result.map (Program.renumber f), (parse tokens drawn).drawn + k⟩ := by
  obtain ⟨-, hshift⟩ := Grammar.carries_program f k (Grammar.depthFor tokens) ⟨tokens, drawn⟩
  unfold parse at h ⊢
  cases hrun : Grammar.program (Grammar.depthFor tokens) ⟨tokens, drawn⟩ with
  | ok p c =>
      rw [hrun] at hshift
      simp only [hrun] at h
      have hshifted : Grammar.program (Grammar.depthFor tokens) ⟨tokens, drawn + k⟩ =
        .ok (Program.renumber f p) (c.shift k) := hshift h
      rw [hshifted]
      rfl
  | error e c =>
      rw [hrun] at hshift
      simp only [hrun] at h
      have hshifted : Grammar.program (Grammar.depthFor tokens) ⟨tokens, drawn + k⟩ =
        .error e (c.shift k) := hshift h
      rw [hshifted]
      rfl

theorem le_drawn_parse (tokens : List Token) (drawn : Nat) : drawn ≤ (parse tokens drawn).drawn := by
  have hle := (Grammar.carries_program id 0 (Grammar.depthFor tokens) ⟨tokens, drawn⟩).1
  unfold parse
  cases hrun : Grammar.program (Grammar.depthFor tokens) ⟨tokens, drawn⟩ with
  | ok p c =>
      rw [hrun] at hle
      exact hle
  | error e c =>
      rw [hrun] at hle
      exact hle

end Kiln
