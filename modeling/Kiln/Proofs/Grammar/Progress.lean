/-
Module: Kiln.Proofs.Grammar.Progress
Purpose: How the grammar moves over its tokens. Every rule takes tokens from the front, never the end of the
  source, whether it succeeds or fails; a rule that reads something takes at least one. So between two
  tokens only as many rules open inside each other as there are from a statement down to a literal, and a
  depth of sixteen for each token is never used up: no rule fails for want of depth, nor for want of a
  token or of an arrow that it relies on.
Main exports: ParseError.isInternal, Parser.Moves, Moves.bind, Grammar.Advancing,
  Grammar.advancing, Grammar.program_moves, parse_isInternal, arrow_search_agrees
-/
import Kiln.Proofs.Grammar.Arrows

namespace Kiln

/-- Whether a failure is none of the text's: a rule has been nested too deep, has taken a token where there is
    none, or has met no arrow where one is in sight. -/
def ParseError.isInternal : ParseError → Bool
  | .noToken | .missingArrow => true
  | _ => false

theorem ParseError.ne_of_isInternal {e : ParseError} (h : e.isInternal = false) :
    e ≠ .missingArrow ∧ e ≠ .noToken := by
  constructor
  · rintro rfl
    cases h
  · rintro rfl
    cases h

namespace Parser

variable {α β : Type}

/-- On the tokens `ts` the parser takes tokens from the front, whether it succeeds or fails. If it succeeds,
    what it gives and what it leaves are related by `Q`; if it may nest `deep` enough, no failure is
    internal. -/
def Moves (p : Parser α) (deep : Prop) (ts : List Token) (Q : α → List Token → Prop) : Prop :=
  ∀ drawn, match p ⟨ts, drawn⟩ with
    | .ok a c => Passed (· ≠ .endOfFile) ts c.tokens ∧ Q a c.tokens
    | .error e c => Passed (· ≠ .endOfFile) ts c.tokens ∧ (deep → e.isInternal = false)

namespace Moves

variable {deep deep' : Prop} {ts : List Token} {P : α → List Token → Prop} {Q : β → List Token → Prop}

theorem pure {a : α} (h : P a ts) : Moves (pure a) deep ts P := fun _ => ⟨.refl ts, h⟩

/-- A rule that may not nest at all. -/
theorem shallow {e : ParseError} (h : ¬ deep) : Moves (throw e) deep ts P :=
  fun _ => ⟨.refl ts, fun hdeep => absurd hdeep h⟩

theorem throw {e : ParseError} (h : e.isInternal = false) : Moves (throw e) deep ts P :=
  fun _ => ⟨.refl ts, fun _ => h⟩

theorem mono {p : Parser α} {P' : α → List Token → Prop} (h : Moves p deep' ts P) (hdeep : deep → deep')
    (hP : ∀ a after, P a after → P' a after) : Moves p deep ts P' := by
  intro drawn
  have hrun := h drawn
  cases hp : p ⟨ts, drawn⟩ with
  | ok a c =>
      rw [hp] at hrun
      exact ⟨hrun.1, hP a c.tokens hrun.2⟩
  | error e c =>
      rw [hp] at hrun
      exact ⟨hrun.1, fun hd => hrun.2 (hdeep hd)⟩

theorem bind {p : Parser α} {f : α → Parser β} (hp : Moves p deep' ts P) (hdeep : deep → deep')
    (hf : ∀ a after, P a after → Moves (f a) deep after Q) :
    Moves (p >>= f) deep ts Q := by
  intro drawn
  have hrun := hp drawn
  simp only [Bind.bind, EStateM.bind]
  cases hp : p ⟨ts, drawn⟩ with
  | error e c =>
      rw [hp] at hrun
      exact ⟨hrun.1, fun hd => hrun.2 (hdeep hd)⟩
  | ok a c =>
      rw [hp] at hrun
      obtain ⟨hpassed, hP⟩ := hrun
      have hrest := hf a c.tokens hP c.drawn
      dsimp only
      cases hfa : f a c with
      | ok b c' =>
          rw [hfa] at hrest
          exact ⟨hpassed.trans hrest.1, hrest.2⟩
      | error e c' =>
          rw [hfa] at hrest
          exact ⟨hpassed.trans hrest.1, hrest.2⟩

/-- A parser whose result is only wrapped. -/
theorem map {p : Parser α} {f : α → β} (hp : Moves p deep' ts P) (hdeep : deep → deep')
    (hf : ∀ a after, P a after → Q (f a) after) : Moves (do return f (← p)) deep ts Q :=
  hp.bind hdeep fun a after ha => pure (hf a after ha)

/-- Something else that is known of every success. -/
theorem ensure {p : Parser α} {P' : α → List Token → Prop} (h : Moves p deep ts P)
    (h' : Ensures p ts P') : Moves p deep ts fun a after => P a after ∧ P' a after := by
  intro drawn
  have hrun := h drawn
  cases hp : p ⟨ts, drawn⟩ with
  | ok a c =>
      rw [hp] at hrun
      exact ⟨hrun.1, hrun.2, h' drawn a c hp⟩
  | error e c =>
      rw [hp] at hrun
      exact hrun

theorem peek {f : Token → Parser β} (h : Moves (f (front ts)) deep ts Q) :
    Moves (Parser.peek >>= f) deep ts Q := h

theorem atFunction {f : Bool → Parser β} (h : Moves (f (isArrowAhead ts)) deep ts Q) :
    Moves (Parser.atFunction >>= f) deep ts Q := h

theorem freshId {f : NodeId → Parser β} (h : ∀ id, Moves (f id) deep ts Q) :
    Moves (Parser.freshId >>= f) deep ts Q := fun drawn => h _ (drawn + 1)

/-- Taking a token that has been seen and is not the end of the source. -/
theorem take {kind : TokenKind} (hkind : (front ts).kind = kind) (hend : kind ≠ .endOfFile) :
    Moves Parser.take deep ts fun t rest => ts = t :: rest := by
  subst hkind
  cases ts with
  | nil => exact absurd rfl hend
  | cons t rest => exact fun drawn => ⟨.cons hend (.refl rest), rfl⟩

theorem skip {kind : TokenKind} {f : Unit → Parser β} (hkind : (front ts).kind = kind)
    (hend : kind ≠ .endOfFile)
    (h : ∀ rest, rest.length + 1 = ts.length → Moves (f ()) deep rest Q) :
    Moves (Parser.skip >>= f) deep ts Q := by
  have hskip : Moves Parser.skip deep ts fun _ rest => rest.length + 1 = ts.length :=
    (take hkind hend).map id fun t rest ht => by rw [ht, List.length_cons]
  exact hskip.bind id fun _ rest hrest => h rest hrest

theorem expect {kind : TokenKind} {cause : Token → ParseError} {f : Token → Parser β}
    (hend : kind ≠ .endOfFile) (hcause : (front ts).kind ≠ kind → (cause (front ts)).isInternal = false)
    (h : ∀ t rest, rest.length + 1 = ts.length → Moves (f t) deep rest Q) :
    Moves (Parser.expect kind cause >>= f) deep ts Q := by
  have htake : Moves (Parser.expect kind cause) deep ts fun _ rest => rest.length + 1 = ts.length := by
    refine .peek ?_
    split
    · next hkind => exact (take hkind hend).mono id fun t rest ht => by rw [ht, List.length_cons]
    · next hkind => exact .throw (hcause hkind)
  exact htake.bind id h

theorem accept {kind : TokenKind} {f : Bool → Parser β} (hend : kind ≠ .endOfFile)
    (htrue : ∀ rest, rest.length + 1 = ts.length → Moves (f true) deep rest Q)
    (hfalse : Moves (f false) deep ts Q) : Moves (Parser.accept kind >>= f) deep ts Q := by
  have htake : Moves (Parser.accept kind) deep ts fun b rest =>
      (b = true ∧ rest.length + 1 = ts.length) ∨ (b = false ∧ rest = ts) := by
    refine .peek ?_
    split
    · next hkind => exact .skip hkind hend fun rest hrest => .pure (.inl ⟨rfl, hrest⟩)
    · exact .pure (.inr ⟨rfl, rfl⟩)
  refine htake.bind id ?_
  rintro b rest (⟨rfl, hrest⟩ | ⟨rfl, rfl⟩)
  · exact htrue rest hrest
  · exact hfalse

end Moves

/-- The parser moves over the tokens `ts`, and over so many of them at least when it succeeds. -/
def Takes (least : Nat) (p : Parser α) (deep : Prop) (ts : List Token) : Prop :=
  Moves p deep ts fun _ after => after.length + least ≤ ts.length

end Parser

/-! ### The rules of the grammar -/

/-- The end of the source is no operator between two operands. -/
theorem Level.connective?_endOfFile {level : Level} {t : Token} (h : t.kind = .endOfFile) :
    level.connective? t = none := by
  have hnone : Connective.ofToken? t = none :=
    Connective.ofToken?_eq_none (by rw [h]; nofun) (by rw [h]; nofun)
  rw [Level.connective?, hnone]
  rfl

/-- The end of the source is no sign before an operand. -/
theorem UnaryOp.ofToken?_endOfFile {t : Token} (h : t.kind = .endOfFile) : UnaryOp.ofToken? t = none := by
  simp only [UnaryOp.ofToken?, h]

namespace Grammar

open Kiln.Parser

theorem takes_optionalType (deep : Prop) (ts : List Token) : Takes 0 optionalType deep ts := by
  refine .peek ?_
  split
  · next hkind =>
    refine .map (.take hkind nofun) id ?_
    rintro t rest rfl
    exact Nat.le_succ _
  · exact .pure (Nat.le_refl _)

theorem takes_parameter (deep : Prop) (ts : List Token) : Takes 1 parameter deep ts := by
  refine .expect nofun (fun _ => rfl) fun name rest hrest => ?_
  refine .accept nofun (fun rest' hrest' => ?_) ?_
  · exact .map (takes_optionalType deep rest') id fun type after hafter => by omega
  · exact .map (takes_optionalType deep rest) id fun type after hafter => by omega

theorem takes_parametersFrom (n : Nat) (ts : List Token) :
    Takes 1 (parametersFrom n) (16 * ts.length + 1 ≤ n) ts := by
  induction n generalizing ts with
  | zero => exact .shallow (by omega)
  | succ n ih =>
      -- whatever stands between two parameters, fewer tokens are left after the first
      have hmore (p : Param) {rest : List Token} (h : rest.length < ts.length) :
          Moves (do return p :: (← parametersFrom n)) (16 * ts.length + 1 ≤ n + 1) rest
            fun _ after => after.length + 1 ≤ ts.length :=
        .map (ih rest) (by omega) fun ps after hafter => by omega
      rw [parametersFrom]
      refine .accept (by decide) (fun rest hrest => .pure (by omega)) ?_
      refine .bind (takes_parameter _ ts) id fun p rest hp => ?_
      refine .accept (by decide) (fun rest' hrest' => .peek ?_) (.peek ?_)
      · split
        · exact .throw rfl
        · exact hmore p (by omega)
      · split
        · exact .throw rfl
        · exact hmore p (by omega)

theorem takes_parameters (n : Nat) (ts : List Token) :
    Takes 1 (parameters n) (16 * ts.length ≤ n) ts :=
  .expect nofun (fun _ => rfl) fun opening rest hrest =>
    (takes_parametersFrom n rest).mono (by omega) fun ps after hafter => by omega

/-- What all rules of the grammar do when they may be nested up to `n` deep. How deep a rule has to nest is
    told by the tokens before it and by the rules that it calls before it takes any. -/
structure Advancing (n : Nat) : Prop where
  expression : ∀ ts, Takes 1 (expression n) (16 * ts.length + 11 ≤ n) ts
  operands : ∀ levels ts,
    Takes 1 (operands n levels) (16 * ts.length + levels.length + 4 ≤ n) ts
  chain : ∀ level tighter left ts,
    Takes 0 (chain n level tighter left) (16 * ts.length + tighter.length + 1 ≤ n) ts
  unary : ∀ ts, Takes 1 (unary n) (16 * ts.length + 3 ≤ n) ts
  selections : ∀ e ts, Takes 0 (selections n e) (16 * ts.length + 1 ≤ n) ts
  arguments : ∀ ts, Takes 1 (arguments n) (16 * ts.length + 12 ≤ n) ts
  moreArguments : ∀ ts, Takes 1 (moreArguments n) (16 * ts.length + 1 ≤ n) ts
  primary : ∀ ts, Takes 1 (primary n) (16 * ts.length + 2 ≤ n) ts
  lambda : ∀ ts, isArrowAhead ts = true → Takes 1 (lambda n) (16 * ts.length + 1 ≤ n) ts
  named : ∀ name ts, Takes 1 (named n name) (16 * ts.length + 1 ≤ n) ts
  braced : ∀ owner ts, Takes 1 (braced n owner) (16 * ts.length + 1 ≤ n) ts
  statements : ∀ ts, Takes 1 (statements n) (16 * ts.length + 14 ≤ n) ts
  statement : ∀ ts, Takes 1 (statement n) (16 * ts.length + 13 ≤ n) ts
  conditional : ∀ ts, Takes 1 (conditional n) (16 * ts.length + 12 ≤ n) ts
  methods : ∀ ts, Takes 1 (methods n) (16 * ts.length + 1 ≤ n) ts
  simple : ∀ ts, Takes 1 (simple n) (16 * ts.length + 12 ≤ n) ts

namespace Advancing

variable {n : Nat}

theorem zero : Advancing 0 := by
  constructor <;> intros <;> exact .shallow (by omega)

theorem operands_succ (ih : Advancing n) (levels : List Level) (ts : List Token) :
    Takes 1 (Grammar.operands (n + 1) levels) (16 * ts.length + levels.length + 4 ≤ n + 1) ts := by
  cases levels with
  | nil => exact (ih.unary ts).mono (by simp only [List.length_nil]; omega) fun _ _ h => h
  | cons level tighter =>
      rw [List.length_cons]
      refine .bind (ih.operands tighter ts) (by omega) fun left rest hrest => ?_
      exact (ih.chain level tighter left rest).mono (by omega) fun e after hafter => by omega

theorem chain_succ (ih : Advancing n) (level : Level) (tighter : List Level) (left : Expr)
    (ts : List Token) : Takes 0 (Grammar.chain (n + 1) level tighter left)
      (16 * ts.length + tighter.length + 1 ≤ n + 1) ts := by
  refine .peek ?_
  split
  · exact .pure (Nat.le_refl _)
  · next c hc =>
    have hend : (front ts).kind ≠ .endOfFile := fun h => by simp [Level.connective?_endOfFile h] at hc
    refine .skip rfl hend fun rest hrest => ?_
    refine .bind (ih.operands tighter rest) (by omega) fun right after hafter => ?_
    exact (ih.chain level tighter _ after).mono (by omega) fun e last hlast => by omega

theorem unary_succ (ih : Advancing n) (ts : List Token) :
    Takes 1 (Grammar.unary (n + 1)) (16 * ts.length + 3 ≤ n + 1) ts := by
  refine .peek ?_
  split
  · next op hop =>
    have hend : (front ts).kind ≠ .endOfFile := fun h => by simp [UnaryOp.ofToken?_endOfFile h] at hop
    refine .skip rfl hend fun rest hrest => ?_
    exact .map (ih.unary rest) (by omega) fun e after hafter => by omega
  · refine .bind (ih.primary ts) (by omega) fun e rest hrest => ?_
    exact (ih.selections e rest).mono (by omega) fun e after hafter => by omega

theorem selections_succ (ih : Advancing n) (e : Expr) (ts : List Token) :
    Takes 0 (Grammar.selections (n + 1) e) (16 * ts.length + 1 ≤ n + 1) ts := by
  refine .peek ?_
  split
  · next hkind =>
    refine .skip hkind nofun fun rest hrest => ?_
    refine .expect nofun (fun _ => rfl) fun property after hafter => ?_
    exact (ih.selections _ after).mono (by omega) fun e last hlast => by omega
  · next hkind =>
    refine .skip hkind nofun fun rest hrest => ?_
    refine .bind (ih.arguments rest) (by omega) fun args after hafter => ?_
    exact (ih.selections _ after).mono (by omega) fun e last hlast => by omega
  · exact .pure (Nat.le_refl _)

theorem arguments_succ (ih : Advancing n) (ts : List Token) :
    Takes 1 (Grammar.arguments (n + 1)) (16 * ts.length + 12 ≤ n + 1) ts := by
  refine .accept nofun (fun rest hrest => .pure (by omega)) ?_
  refine .bind (ih.expression ts) (by omega) fun first rest hrest => ?_
  exact .map (ih.moreArguments rest) (by omega) fun more after hafter => by omega

theorem moreArguments_succ (ih : Advancing n) (ts : List Token) :
    Takes 1 (Grammar.moreArguments (n + 1)) (16 * ts.length + 1 ≤ n + 1) ts := by
  refine .accept nofun (fun rest hrest => ?_) ?_
  · refine .bind (ih.expression rest) (by omega) fun next after hafter => ?_
    exact .map (ih.moreArguments after) (by omega) fun more last hlast => by omega
  · exact .expect nofun (fun _ => rfl) fun closing rest hrest => .pure (by omega)

theorem primary_succ (ih : Advancing n) (ts : List Token) :
    Takes 1 (Grammar.primary (n + 1)) (16 * ts.length + 2 ≤ n + 1) ts := by
  -- a literal or a name is one token
  have hone {kind : TokenKind} {p : Parser Expr} (hkind : (front ts).kind = kind)
      (hend : kind ≠ .endOfFile) (hp : ∀ rest, Takes 0 p (16 * ts.length + 2 ≤ n + 1) rest) :
      Takes 1 (do skip; p) (16 * ts.length + 2 ≤ n + 1) ts :=
    .skip hkind hend fun rest hrest => (hp rest).mono id fun e after hafter => by omega
  refine .peek ?_
  split
  · next hkind =>
    refine hone hkind nofun fun rest => ?_
    split
    · exact .pure (Nat.le_refl _)
    · exact .throw rfl
  · next hkind => exact hone hkind nofun fun rest => .pure (Nat.le_refl _)
  · next hkind => exact hone hkind nofun fun rest => .pure (Nat.le_refl _)
  · next hkind => exact hone hkind nofun fun rest => .pure (Nat.le_refl _)
  · next hkind => exact hone hkind nofun fun rest => .freshId fun _ => .pure (Nat.le_refl _)
  · next hkind => exact hone hkind nofun fun rest => .freshId fun _ => .pure (Nat.le_refl _)
  · next hkind =>
    refine .atFunction ?_
    split
    · next hahead => exact (ih.lambda ts hahead).mono (by omega) fun _ _ h => h
    · refine .skip hkind nofun fun rest hrest => ?_
      refine .bind (ih.expression rest) (by omega) fun e after hafter => ?_
      exact .expect nofun (fun _ => rfl) fun closing last hlast => .pure (by omega)
  · exact .throw rfl
  · exact .throw rfl

/-- The arrow of an unnamed function is never missed, because it has been in sight before its parameters. -/
theorem lambda_succ (ih : Advancing n) (ts : List Token) (h : isArrowAhead ts = true) :
    Takes 1 (Grammar.lambda (n + 1)) (16 * ts.length + 1 ≤ n + 1) ts := by
  refine .bind ((takes_parameters n ts).ensure (parameters_closed n)) (by omega) ?_
  rintro params rest ⟨hrest, hclosed⟩
  have harrow : isArrowNext rest = true := hclosed.isArrowAhead_eq.symm.trans h
  refine .bind ((takes_optionalType _ rest).ensure optionalType_arrow) id ?_
  rintro returnType after ⟨hafter, hsight⟩
  refine .expect nofun (fun hkind => absurd (hsight.1 harrow) hkind) fun arrow last hlast => ?_
  exact .map (ih.braced _ last) (by omega) fun body behind hbehind => by omega

theorem named_succ (ih : Advancing n) (name : String) (ts : List Token) :
    Takes 1 (Grammar.named (n + 1) name) (16 * ts.length + 1 ≤ n + 1) ts := by
  refine .bind (takes_parameters n ts) (by omega) fun params rest hrest => ?_
  refine .bind (takes_optionalType _ rest) id fun returnType after hafter => ?_
  exact .map (ih.braced name after) (by omega) fun body last hlast => by omega

theorem braced_succ (ih : Advancing n) (owner : String) (ts : List Token) :
    Takes 1 (Grammar.braced (n + 1) owner) (16 * ts.length + 1 ≤ n + 1) ts :=
  .expect nofun (fun _ => rfl) fun opening rest hrest =>
    (ih.statements rest).mono (by omega) fun body after hafter => by omega

theorem statements_succ (ih : Advancing n) (ts : List Token) :
    Takes 1 (Grammar.statements (n + 1)) (16 * ts.length + 14 ≤ n + 1) ts := by
  refine .peek ?_
  split
  · next hkind => exact .skip hkind nofun fun rest hrest => .pure (by omega)
  · exact .throw rfl
  · refine .bind (ih.statement ts) (by omega) fun s rest hrest => ?_
    exact .map (ih.statements rest) (by omega) fun more after hafter => by omega

theorem statement_succ (ih : Advancing n) (ts : List Token) :
    Takes 1 (Grammar.statement (n + 1)) (16 * ts.length + 13 ≤ n + 1) ts := by
  refine .peek ?_
  split
  · next hkind =>
    refine .skip hkind nofun fun rest hrest => ?_
    refine .expect nofun (fun _ => rfl) fun name after hafter => ?_
    exact .map (ih.named name.value after) (by omega) fun f last hlast => by omega
  · next hkind =>
    refine .skip hkind nofun fun rest hrest => ?_
    refine .expect nofun (fun _ => rfl) fun name after hafter => ?_
    refine .expect nofun (fun _ => rfl) fun opening body hbody => ?_
    exact .map (ih.methods body) (by omega) fun methods last hlast => by omega
  · next hkind =>
    refine .skip hkind nofun fun rest hrest => .peek ?_
    split
    · exact .pure (by omega)
    · exact .map (ih.expression rest) (by omega) fun value after hafter => by omega
  · next hkind =>
    refine .skip hkind nofun fun rest hrest => ?_
    exact (ih.conditional rest).mono (by omega) fun s after hafter => by omega
  · next hkind =>
    refine .skip hkind nofun fun rest hrest => ?_
    refine .bind (ih.expression rest) (by omega) fun test after hafter => ?_
    exact .map (ih.braced _ after) (by omega) fun body last hlast => by omega
  · exact .map (ih.braced _ ts) (by omega) fun body after hafter => hafter
  · exact (ih.simple ts).mono (by omega) fun _ _ h => h

theorem conditional_succ (ih : Advancing n) (ts : List Token) :
    Takes 1 (Grammar.conditional (n + 1)) (16 * ts.length + 12 ≤ n + 1) ts := by
  refine .bind (ih.expression ts) (by omega) fun test rest hrest => ?_
  refine .bind (ih.braced _ rest) (by omega) fun thenBody after hafter => ?_
  refine .accept nofun (fun other hother => ?_) (.pure (by omega))
  refine .accept nofun (fun next hnext => ?_) ?_
  · exact .map (ih.conditional next) (by omega) fun branch last hlast => by omega
  · exact .map (ih.braced _ other) (by omega) fun body last hlast => by omega

theorem methods_succ (ih : Advancing n) (ts : List Token) :
    Takes 1 (Grammar.methods (n + 1)) (16 * ts.length + 1 ≤ n + 1) ts := by
  refine .peek ?_
  split
  · next hkind => exact .skip hkind nofun fun rest hrest => .pure (by omega)
  · next hkind =>
    refine .skip hkind nofun fun rest hrest => ?_
    exact (ih.methods rest).mono (by omega) fun fs after hafter => by omega
  · next hkind =>
    refine .skip hkind nofun fun rest hrest => ?_
    refine .bind (ih.named _ rest) (by omega) fun f after hafter => ?_
    exact .map (ih.methods after) (by omega) fun fs last hlast => by omega
  · exact .throw rfl
  · exact .throw rfl

theorem updateOf (left : Expr) (op : UpdateOp) (deep : Prop) (ts : List Token) :
    Takes 0 (Grammar.updateOf left op) deep ts := by
  cases left with
  | var name id => exact .pure (Nat.le_refl _)
  | _ => exact .throw rfl

theorem simple_succ (ih : Advancing n) (ts : List Token) :
    Takes 1 (Grammar.simple (n + 1)) (16 * ts.length + 12 ≤ n + 1) ts := by
  refine .bind (ih.expression ts) (by omega) fun left rest hrest => .peek ?_
  split
  · next hkind =>
    refine .skip hkind nofun fun after hafter => ?_
    split
    · exact .map (ih.expression after) (by omega) fun value last hlast => by omega
    · exact .throw rfl
  · next hkind =>
    refine .skip hkind nofun fun after hafter => ?_
    refine .bind (ih.expression after) (by omega) fun value last hlast => ?_
    split
    · exact .pure (by omega)
    · exact .pure (by omega)
    · exact .throw rfl
  · next hkind =>
    refine .skip hkind nofun fun after hafter => ?_
    exact (updateOf left .increment _ after).mono id fun s last hlast => by omega
  · next hkind =>
    refine .skip hkind nofun fun after hafter => ?_
    exact (updateOf left .decrement _ after).mono id fun s last hlast => by omega
  · exact .pure hrest

end Advancing

/-- All rules of the grammar move over their tokens. -/
theorem advancing (n : Nat) : Advancing n := by
  induction n with
  | zero => exact .zero
  | succ n ih =>
      exact {
        expression := fun ts => (ih.operands Level.all ts).mono
          (by simp only [Level.all, List.length_cons, List.length_nil]; omega) fun _ _ h => h
        operands := ih.operands_succ
        chain := ih.chain_succ
        unary := ih.unary_succ
        selections := ih.selections_succ
        arguments := ih.arguments_succ
        moreArguments := ih.moreArguments_succ
        primary := ih.primary_succ
        lambda := ih.lambda_succ
        named := ih.named_succ
        braced := ih.braced_succ
        statements := ih.statements_succ
        statement := ih.statement_succ
        conditional := ih.conditional_succ
        methods := ih.methods_succ
        simple := ih.simple_succ }

/-- At the end of the source a program has no more statements. -/
theorem program_endOfFile (n : Nat) {ts : List Token} (drawn : Nat) (h : (front ts).kind = .endOfFile) :
    program (n + 1) ⟨ts, drawn⟩ = .ok [] ⟨ts, drawn⟩ := by
  rw [program_succ]
  simp only [Bind.bind, EStateM.bind, h, if_true]
  rfl

/-- Elsewhere it has one more, which lies on the line of its first token. -/
theorem program_statement (n : Nat) {ts : List Token} (drawn : Nat) (h : (front ts).kind ≠ .endOfFile) :
    program (n + 1) ⟨ts, drawn⟩ =
      match statement n ⟨ts, drawn⟩ with
      | .error e c => .error ⟨(front ts).line, e⟩ c
      | .ok s c =>
        match program n c with
        | .error e c' => .error e c'
        | .ok p c' => .ok (⟨(front ts).line, s⟩ :: p) c' := by
  rw [program_succ]
  simp only [Bind.bind, EStateM.bind, if_neg h, EStateM.adaptExcept]
  cases statement n ⟨ts, drawn⟩ with
  | error e c => rfl
  | ok s c =>
      dsimp only
      cases program n c <;> rfl

/-- A program is read from the front, up to an end of the source. It fails for no internal reason when its
    statements may nest deep enough. -/
theorem program_moves (n : Nat) (ts : List Token) (drawn : Nat) :
    match program n ⟨ts, drawn⟩ with
    | .ok _ c => Passed (· ≠ .endOfFile) ts c.tokens ∧ (front c.tokens).kind = .endOfFile
    | .error e c => Passed (· ≠ .endOfFile) ts c.tokens ∧ (16 * ts.length + 14 ≤ n → e.value.isInternal = false) := by
  induction n generalizing ts drawn with
  | zero => exact ⟨.refl ts, fun hdeep => absurd hdeep (by omega)⟩
  | succ n ih =>
      by_cases hend : (front ts).kind = .endOfFile
      · rw [program_endOfFile n drawn hend]
        exact ⟨.refl ts, hend⟩
      · have hrun := (advancing n).statement ts drawn
        rw [program_statement n drawn hend]
        cases hs : statement n ⟨ts, drawn⟩ with
        | error e c =>
            rw [hs] at hrun
            exact ⟨hrun.1, fun hdeep => hrun.2 (by omega)⟩
        | ok s c =>
            rw [hs] at hrun
            obtain ⟨hpassed, hfewer⟩ := hrun
            have hmore := ih c.tokens c.drawn
            dsimp only
            cases hp : program n c with
            | error e c' =>
                rw [hp] at hmore
                exact ⟨hpassed.trans hmore.1, fun hdeep => hmore.2 (by omega)⟩
            | ok p c' =>
                rw [hp] at hmore
                exact ⟨hpassed.trans hmore.1, hmore.2⟩

theorem program_isInternal {n : Nat} {ts : List Token} {drawn : Nat} {e : Located ParseError} {c : Cursor}
    (h : program n ⟨ts, drawn⟩ = .error e c) (hdeep : 16 * ts.length + 14 ≤ n) :
    e.value.isInternal = false := by
  have hrun := program_moves n ts drawn
  rw [h] at hrun
  exact hrun.2 hdeep

theorem depthFor_enough (ts : List Token) : 16 * ts.length + 14 ≤ depthFor ts := by
  rw [depthFor]
  omega

end Grammar

/-- No list of tokens is rejected for an internal reason. -/
theorem parse_isInternal {tokens : List Token} {drawn : Nat} {e : Located ParseError}
    (h : (parse tokens drawn).result = .error e) : e.value.isInternal = false := by
  rw [parse] at h
  split at h
  · cases h
  · next e' c hrun =>
    cases h
    exact Grammar.program_isInternal hrun (Grammar.depthFor_enough tokens)

/-! ### The search for an arrow and the rules -/

open Kiln.Parser

namespace Grammar

/-- An expression between parentheses. -/
def grouped (n : Nat) : Parser Expr := do
  skip
  let e ← expression n
  let _ ← expect .closeParen (fun _ => .missingCloseParen)
  return e

/-- At a parenthesis the search decides which rule goes on. -/
theorem primary_openParen (n : Nat) {c : Cursor} (h : (front c.tokens).kind = .openParen) :
    primary (n + 1) c = if isArrowAhead c.tokens then lambda n c else grouped n c := by
  simp only [primary, Bind.bind, EStateM.bind, peek, h, atFunction]
  split <;> rfl

end Grammar

open Grammar in
/-- The search for an arrow and the rules that rely on it agree. From a parenthesis on, which is where the
    parser asks, the count of open ones never falls below zero; no list of tokens is rejected for a missing
    arrow or for a token taken where there is none; the search succeeds wherever parameters, a return type
    and an arrow can be read. So a parenthesis begins an unnamed function exactly when the one that closes
    it comes before the end of the source and has an arrow behind it, at once or after one name. -/
theorem arrow_search_agrees :
    (∀ tokens, (front tokens).kind = .openParen →
      isArrowAfter? 0 tokens = some (isArrowAhead tokens)) ∧
    (∀ tokens drawn e, (parse tokens drawn).result = .error e →
      e.value ≠ .missingArrow ∧ e.value ≠ .noToken) ∧
    (∀ n tokens, Ensures (do
      let params ← parameters n
      let returnType ← optionalType
      let _ ← expect .arrow fun _ => .missingArrow
      return (params, returnType)) tokens fun _ _ => isArrowAhead tokens = true) ∧
    ∀ n (c : Cursor), (front c.tokens).kind = .openParen →
      ((∃ after, ClosedBefore after c.tokens ∧ ArrowStands after) → primary (n + 1) c = lambda n c) ∧
      ((¬ ∃ after, ClosedBefore after c.tokens ∧ ArrowStands after) →
        primary (n + 1) c = grouped n c) := by
  refine ⟨fun tokens => isArrowAfter?_eq,
    fun tokens drawn e he => ParseError.ne_of_isInternal (parse_isInternal he),
    fun n tokens => functionHead_isArrowAhead n, fun n c hopens => ⟨fun harrow => ?_, fun hnone => ?_⟩⟩
  · rw [primary_openParen n hopens, if_pos ((isArrowAhead_iff hopens).2 harrow)]
  · rw [primary_openParen n hopens, if_neg fun hahead => hnone ((isArrowAhead_iff hopens).1 hahead)]

open Grammar in
/-- A function with a return type, and a parenthesis that is closed behind the end of the source only. -/
theorem arrow_search_agrees_of_typed :
    let typed : List Token := [⟨.openParen, "(", 0⟩, ⟨.identifier, "a", 0⟩, ⟨.closeParen, ")", 0⟩,
      ⟨.identifier, "T", 0⟩, ⟨.arrow, "=>", 0⟩, ⟨.openBrace, "\x7b", 0⟩, ⟨.closeBrace, "\x7d", 1⟩]
    let unclosed : List Token := [⟨.openParen, "(", 0⟩, ⟨.openParen, "(", 0⟩, ⟨.closeParen, ")", 0⟩,
      .eof 1, ⟨.closeParen, ")", 1⟩, ⟨.arrow, "=>", 1⟩]
    isArrowAfter? 0 unclosed = some (isArrowAhead unclosed) ∧
      (∃ e, (parse unclosed 0).result = .error e ∧ e.value ≠ .missingArrow ∧ e.value ≠ .noToken) ∧
      isArrowAhead typed = true ∧
      primary 40 ⟨typed, 0⟩ = lambda 39 ⟨typed, 0⟩ ∧
      primary 40 ⟨unclosed, 0⟩ = grouped 39 ⟨unclosed, 0⟩ := by
  intro typed unclosed
  obtain ⟨hcount, herror, hhead, hprimary⟩ := arrow_search_agrees
  have hfails : (parse unclosed 0).result = .error ⟨0, .unexpectedToken ")"⟩ := by rfl
  refine ⟨hcount unclosed rfl, ⟨_, hfails, herror unclosed 0 _ hfails⟩, ?_, ?_, ?_⟩
  · exact hhead 10 typed 0 ([⟨"a", none⟩], some "T") _ rfl
  · have harrow : ArrowStands (typed.drop 3) := isArrowNext_iff.1 rfl
    have hclosed : ClosedBefore (typed.drop 3) typed :=
      ⟨_, [⟨.identifier, "a", 0⟩], _, rfl, rfl, .plain rfl .nil, rfl⟩
    exact (hprimary 39 ⟨typed, 0⟩ rfl).1 ⟨_, hclosed, harrow⟩
  · refine (hprimary 39 ⟨unclosed, 0⟩ rfl).2 fun hclosed => ?_
    exact absurd ((isArrowAhead_iff rfl).2 hclosed) (by decide)

end Kiln
