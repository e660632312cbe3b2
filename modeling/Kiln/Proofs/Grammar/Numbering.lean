/-
Module: Kiln.Proofs.Grammar.Numbering
Purpose: The ids of a parsed program are all different. Every rule of the grammar draws its ids one after the
  other and puts each of them into the tree at most once, in the order of the source, so that the ids of what
  it gives lie between the counts of drawn ids before and after it. As long as the ids do not come round
  again, each of them is greater than those before it in the source.
Main exports: Drawn, Ascending, Parser.Draws, Parser.Draws.bind, Grammar.numbered, ascending_of_parse,
  drawn_of_parse
-/
import Kiln.Parser.Grammar
import Kiln.Proofs.Tree.SourceOrder

namespace Kiln

/-- These ids are all different, and have been drawn from the count `first` up to the count `last`. -/
structure Drawn (first last : Nat) (ids : List NodeId) : Prop where
  le : first ≤ last
  nodup : ids.Nodup
  range : ∀ id ∈ ids, first ≤ id.index ∧ id.index < last

namespace Drawn

variable {first mid last : Nat} {ids ids' : List NodeId}

theorem nil (h : first ≤ last) : Drawn first last [] :=
  ⟨h, List.nodup_nil, fun _ hid => by cases hid⟩

theorem mono (h : Drawn first mid ids) (hle : mid ≤ last) : Drawn first last ids := by
  refine ⟨Nat.le_trans h.le hle, h.nodup, fun id hid => ?_⟩
  obtain ⟨hfirst, hmid⟩ := h.range id hid
  exact ⟨hfirst, Nat.lt_of_lt_of_le hmid hle⟩

theorem perm (h : Drawn first last ids) (hperm : ids.Perm ids') : Drawn first last ids' :=
  ⟨h.le, hperm.nodup h.nodup, fun id hid => h.range id (hperm.mem_iff.2 hid)⟩

theorem sublist (h : Drawn first last ids) (hsub : ids'.Sublist ids) : Drawn first last ids' :=
  ⟨h.le, hsub.nodup h.nodup, fun id hid => h.range id (hsub.subset hid)⟩

/-- Ids that are drawn later are others. -/
theorem append (h : Drawn first mid ids) (h' : Drawn mid last ids') :
    Drawn first last (ids ++ ids') := by
  refine ⟨Nat.le_trans h.le h'.le, ?_, ?_⟩
  · refine List.nodup_append.2 ⟨h.nodup, h'.nodup, ?_⟩
    rintro id hid _ hid' rfl
    exact absurd (h.range id hid).2 (Nat.not_lt.2 (h'.range id hid').1)
  · intro id hid
    rcases List.mem_append.1 hid with hid | hid
    · exact (h.mono h'.le).range id hid
    · exact ⟨Nat.le_trans h.le (h'.range id hid).1, (h'.range id hid).2⟩

end Drawn

/-- These ids have been drawn from the count `first` up to the count `last`, and each of them is greater than
    the one before it. -/
structure Ascending (first last : Nat) (ids : List NodeId) : Prop extends Drawn first last ids where
  increasing : ids.Pairwise (·.index < ·.index)

namespace Ascending

variable {first mid last : Nat} {ids ids' : List NodeId}

theorem nil (h : first ≤ last) : Ascending first last [] := ⟨.nil h, .nil⟩

theorem sublist (h : Ascending first last ids) (hsub : ids'.Sublist ids) : Ascending first last ids' :=
  ⟨h.toDrawn.sublist hsub, h.increasing.sublist hsub⟩

/-- Ids that are drawn later are greater. -/
theorem append (h : Ascending first mid ids) (h' : Ascending mid last ids') :
    Ascending first last (ids ++ ids') := by
  refine ⟨h.toDrawn.append h'.toDrawn, ?_⟩
  refine List.pairwise_append.2 ⟨h.increasing, h'.increasing, fun id hid id' hid' => ?_⟩
  exact Nat.lt_of_lt_of_le (h.range id hid).2 (h'.range id' hid').1

end Ascending

namespace Parser

variable {α β ε : Type}

/-- When the ids `old` have been drawn before, then the ids of what the parser gives have been drawn by its
    end. -/
def Draws (old : List NodeId) (p : EStateM ε Cursor α) (ids : α → List NodeId) : Prop :=
  ∀ c a c', p c = .ok a c' → c.drawn ≤ c'.drawn ∧
    (c'.drawn ≤ NodeId.count → ∀ first, Ascending first c.drawn old → Ascending first c'.drawn (ids a))

/-- The parser draws the ids of what it gives, and no others are lost. -/
def DrawsNew (p : EStateM ε Cursor α) (ids : α → List NodeId) : Prop :=
  ∀ old, Draws old p fun a => old ++ ids a

/-- The parser draws no ids that are kept. -/
abbrev DrawsNone (p : EStateM ε Cursor α) : Prop := ∀ old, Draws old p fun _ => old

namespace Draws

variable {old : List NodeId} {ids : α → List NodeId} {ids' : β → List NodeId}

theorem pure {a : α} (h : ∀ first last, Ascending first last old → Ascending first last (ids a)) :
    Draws old (pure a : EStateM ε Cursor α) ids := by
  rintro c _ _ ⟨⟩
  exact ⟨Nat.le_refl _, fun _ first hold => h first c.drawn hold⟩

theorem throw {e : ε} : Draws old (throw e : EStateM ε Cursor α) ids := by
  intro c a c' h
  cases h

theorem bind {p : EStateM ε Cursor α} {q : α → EStateM ε Cursor β} (hp : Draws old p ids)
    (hq : ∀ a, Draws (ids a) (q a) ids') : Draws old (p >>= q) ids' := by
  intro c b c₂ h
  simp only [Bind.bind, EStateM.bind] at h
  split at h
  · next a c₁ hrun =>
    obtain ⟨hle, hdrawn⟩ := hp c a c₁ hrun
    obtain ⟨hle', hdrawn'⟩ := hq a c₁ b c₂ h
    refine ⟨Nat.le_trans hle hle', fun few first hold => ?_⟩
    exact hdrawn' few first (hdrawn (Nat.le_trans hle' few) first hold)
  · cases h

/-- A parser whose result is only wrapped. -/
theorem map {p : EStateM ε Cursor α} {wrap : α → β} (hp : Draws old p ids)
    (hwrap : ∀ a first last, Ascending first last (ids a) → Ascending first last (ids' (wrap a))) :
    Draws old (do return wrap (← p)) ids' :=
  hp.bind fun a => pure (hwrap a)

end Draws

theorem drawsNone_of_tokens {p : EStateM ε Cursor α}
    (h : ∀ c a c', p c = .ok a c' → c'.drawn = c.drawn) : DrawsNone p := by
  intro old c a c' hrun
  rw [h c a c' hrun]
  exact ⟨Nat.le_refl _, fun _ _ hold => hold⟩

theorem drawsNone_peek : DrawsNone peek := by
  apply drawsNone_of_tokens
  rintro c _ _ ⟨⟩
  rfl

theorem drawsNone_atFunction : DrawsNone atFunction := by
  apply drawsNone_of_tokens
  rintro c _ _ ⟨⟩
  rfl

theorem drawsNone_take : DrawsNone take := by
  apply drawsNone_of_tokens
  rintro ⟨ts, drawn⟩ t c' h
  cases ts with
  | nil => cases h
  | cons t rest =>
      cases h
      rfl

theorem drawsNone_skip : DrawsNone skip := fun old =>
  (drawsNone_take old).bind fun _ => .pure fun _ _ h => h

theorem drawsNone_expect (kind : TokenKind) (cause : Token → ParseError) :
    DrawsNone (expect kind cause) := by
  intro old
  apply (drawsNone_peek old).bind
  intro t
  split
  · exact drawsNone_take old
  · exact .throw

theorem drawsNone_accept (kind : TokenKind) : DrawsNone (accept kind) := by
  intro old
  apply (drawsNone_peek old).bind
  intro t
  split
  · exact (drawsNone_skip old).bind fun _ => .pure fun _ _ h => h
  · exact .pure fun _ _ h => h

/-- The next id is greater than those before, as long as there are enough. -/
theorem drawsNew_freshId : DrawsNew freshId fun id => [id] := by
  rintro old c _ _ ⟨⟩
  refine ⟨Nat.le_succ _, fun few first hold => ?_⟩
  have hindex : c.drawn % NodeId.count = c.drawn := Nat.mod_eq_of_lt few
  apply hold.append
  refine ⟨⟨Nat.le_succ _, by simp, fun id hid => ?_⟩, List.pairwise_singleton ..⟩
  cases List.mem_singleton.1 hid
  simp only [hindex]
  exact ⟨Nat.le_refl _, Nat.lt_succ_self _⟩

end Parser

/-! ### The rules of the grammar -/

namespace Grammar

open Kiln.Parser

theorem drawsNone_optionalType : DrawsNone optionalType := by
  intro old
  apply (drawsNone_peek old).bind
  intro t
  split
  · exact (drawsNone_take old).map fun _ _ _ h => h
  · exact .pure fun _ _ h => h

theorem drawsNone_parameter : DrawsNone parameter := by
  intro old
  apply (drawsNone_expect _ _ old).bind
  intro name
  apply (drawsNone_accept _ old).bind
  intro _
  exact (drawsNone_optionalType old).map fun _ _ _ h => h

theorem drawsNone_parametersFrom (n : Nat) : DrawsNone (parametersFrom n) := by
  intro old
  induction n with
  | zero => exact .throw
  | succ n ih =>
      have hmore : ∀ p : Param, Draws old (do return p :: (← parametersFrom n)) fun _ => old :=
        fun p => ih.map fun _ _ _ h => h
      have hthrow : ∀ e : ParseError, Draws old (throw e : Parser Unit) fun _ => old :=
        fun _ => .throw
      rw [parametersFrom]
      apply (drawsNone_accept _ old).bind
      intro closed
      split
      · exact .pure fun _ _ h => h
      · apply (drawsNone_parameter old).bind
        intro p
        apply (drawsNone_accept _ old).bind
        intro comma
        split
        · apply (drawsNone_peek old).bind
          intro t
          split
          · exact (hthrow _).bind fun _ => hmore p
          · exact hmore p
        · apply (drawsNone_peek old).bind
          intro t
          split
          · exact (hthrow _).bind fun _ => hmore p
          · exact hmore p

theorem drawsNone_parameters (n : Nat) : DrawsNone (parameters n) := fun old =>
  (drawsNone_expect _ _ old).bind fun _ => drawsNone_parametersFrom n old

/-- Every rule of the grammar, at one depth, draws the ids of what it gives. Rules that go on with an
    expression keep its ids. -/
structure Numbered (n : Nat) : Prop where
  expression : DrawsNew (expression n) fun e => e.sourceIds
  operands : ∀ levels, DrawsNew (operands n levels) fun e => e.sourceIds
  chain : ∀ level tighter left old, Draws (old ++ left.sourceIds) (chain n level tighter left)
    fun e => old ++ e.sourceIds
  unary : DrawsNew (unary n) fun e => e.sourceIds
  selections : ∀ e old, Draws (old ++ e.sourceIds) (selections n e)
    fun e => old ++ e.sourceIds
  arguments : DrawsNew (arguments n) fun es => Expr.sourceIdsOfAll es
  moreArguments : DrawsNew (moreArguments n) fun es => Expr.sourceIdsOfAll es
  primary : DrawsNew (primary n) fun e => e.sourceIds
  lambda : DrawsNew (lambda n) fun e => e.sourceIds
  named : ∀ name, DrawsNew (named n name) fun f => f.sourceIds
  braced : ∀ owner, DrawsNew (braced n owner) fun ss => Stmt.sourceIdsOfAll ss
  statements : DrawsNew (statements n) fun ss => Stmt.sourceIdsOfAll ss
  statement : DrawsNew (statement n) fun s => s.sourceIds
  conditional : DrawsNew (conditional n) fun s => s.sourceIds
  methods : DrawsNew (methods n) fun fs => Function.sourceIdsOfAll fs
  simple : DrawsNew (simple n) fun s => s.sourceIds

namespace Numbered

variable {n : Nat}

theorem zero : Numbered 0 := by
  constructor <;> intros <;> first | exact .throw | exact fun _ => .throw

theorem operands_succ (ih : Numbered n) (levels : List Level) :
    DrawsNew (Grammar.operands (n + 1) levels) fun e => e.sourceIds := by
  intro old
  cases levels with
  | nil => exact ih.unary old
  | cons level tighter =>
      apply (ih.operands tighter old).bind
      intro left
      exact ih.chain level tighter left old

theorem sourceIds_join (c : Connective) (left right : Expr) :
    (c.join left right).sourceIds = left.sourceIds ++ right.sourceIds := by
  cases c <;> simp [Connective.join, Expr.sourceIds]

theorem chain_succ (ih : Numbered n) (level : Level) (tighter : List Level) (left : Expr)
    (old : List NodeId) :
    Draws (old ++ left.sourceIds) (Grammar.chain (n + 1) level tighter left)
      fun e => old ++ e.sourceIds := by
  apply (drawsNone_peek _).bind
  intro t
  cases level.connective? t with
  | none => exact .pure fun _ _ h => h
  | some c =>
      apply (drawsNone_skip _).bind
      intro _
      apply (ih.operands tighter _).bind
      intro right
      rw [List.append_assoc, ← sourceIds_join c]
      exact ih.chain level tighter _ old

theorem unary_succ (ih : Numbered n) :
    DrawsNew (Grammar.unary (n + 1)) fun e => e.sourceIds := by
  intro old
  apply (drawsNone_peek _).bind
  intro t
  cases UnaryOp.ofToken? t with
  | none =>
      apply (ih.primary old).bind
      intro e
      exact ih.selections e old
  | some op =>
      apply (drawsNone_skip _).bind
      intro _
      exact (ih.unary old).map fun _ _ _ h => h

theorem selections_succ (ih : Numbered n) (e : Expr) (old : List NodeId) :
    Draws (old ++ e.sourceIds) (Grammar.selections (n + 1) e)
      fun e => old ++ e.sourceIds := by
  apply (drawsNone_peek _).bind
  intro t
  cases t.kind with
  | dot =>
      apply (drawsNone_skip _).bind
      intro _
      apply (drawsNone_expect _ _ _).bind
      intro property
      exact ih.selections (.member e property.value) old
  | openParen =>
      apply (drawsNone_skip _).bind
      intro _
      apply (ih.arguments _).bind
      intro args
      have hcall : e.sourceIds ++ Expr.sourceIdsOfAll args = (Expr.call e args).sourceIds := by
        rw [Expr.sourceIds]
      rw [List.append_assoc, hcall]
      exact ih.selections (.call e args) old
  | _ => exact .pure fun _ _ h => h

/-- An expression is read and put before the others. -/
theorem first_and_more (ih : Numbered n) :
    DrawsNew (do return (← Grammar.expression n) :: (← Grammar.moreArguments n))
      fun es => Expr.sourceIdsOfAll es := by
  intro old
  apply (ih.expression old).bind
  intro first
  apply (ih.moreArguments _).map
  intro more _ _ h
  simpa only [Expr.sourceIdsOfAll, List.append_assoc] using h

theorem arguments_succ (ih : Numbered n) :
    DrawsNew (Grammar.arguments (n + 1)) fun es => Expr.sourceIdsOfAll es := by
  intro old
  apply (drawsNone_accept _ _).bind
  intro closed
  split
  · exact .pure fun _ _ h => by simpa [Expr.sourceIdsOfAll] using h
  · exact ih.first_and_more old

theorem moreArguments_succ (ih : Numbered n) :
    DrawsNew (Grammar.moreArguments (n + 1)) fun es => Expr.sourceIdsOfAll es := by
  intro old
  apply (drawsNone_accept _ _).bind
  intro comma
  split
  · exact ih.first_and_more old
  · apply (drawsNone_expect _ _ _).bind
    intro _
    exact .pure fun _ _ h => by simpa [Expr.sourceIdsOfAll] using h

theorem primary_succ (ih : Numbered n) :
    DrawsNew (Grammar.primary (n + 1)) fun e => e.sourceIds := by
  intro old
  have hliteral : ∀ e : Expr, e.sourceIds = [] →
      Draws old (pure e : Parser Expr) fun e => old ++ e.sourceIds := by
    intro e he
    exact .pure fun _ _ h => by simpa [he] using h
  apply (drawsNone_peek _).bind
  intro t
  simp only
  cases t.kind with
  | number =>
      apply (drawsNone_skip _).bind
      intro _
      cases Decimal.read? t.value with
      | none => exact .throw
      | some value => exact hliteral _ rfl
  | text => exact (drawsNone_skip _).bind fun _ => hliteral _ rfl
  | trueWord => exact (drawsNone_skip _).bind fun _ => hliteral _ rfl
  | falseWord => exact (drawsNone_skip _).bind fun _ => hliteral _ rfl
  | identifier =>
      apply (drawsNone_skip _).bind
      intro _
      exact (drawsNew_freshId old).map fun _ _ _ h => h
  | thisWord =>
      apply (drawsNone_skip _).bind
      intro _
      exact (drawsNew_freshId old).map fun _ _ _ h => h
  | openParen =>
      apply (drawsNone_atFunction _).bind
      intro ahead
      split
      · exact ih.lambda old
      · apply (drawsNone_skip _).bind
        intro _
        apply (ih.expression old).bind
        intro e
        apply (drawsNone_expect _ _ _).bind
        intro _
        exact .pure fun _ _ h => h
  | _ => exact .throw

theorem lambda_succ (ih : Numbered n) :
    DrawsNew (Grammar.lambda (n + 1)) fun e => e.sourceIds := by
  intro old
  apply (drawsNone_parameters n _).bind
  intro params
  apply (drawsNone_optionalType _).bind
  intro returnType
  apply (drawsNone_expect _ _ _).bind
  intro _
  apply (ih.braced _ old).map
  intro body _ _ h
  simpa only [Expr.sourceIds, Function.sourceIds] using h

theorem named_succ (ih : Numbered n) (name : String) :
    DrawsNew (Grammar.named (n + 1) name) fun f => f.sourceIds := by
  intro old
  apply (drawsNone_parameters n _).bind
  intro params
  apply (drawsNone_optionalType _).bind
  intro returnType
  apply (ih.braced name old).map
  intro body _ _ h
  simpa only [Function.sourceIds] using h

theorem braced_succ (ih : Numbered n) (owner : String) :
    DrawsNew (Grammar.braced (n + 1) owner) fun ss => Stmt.sourceIdsOfAll ss := fun old =>
  (drawsNone_expect _ _ old).bind fun _ => ih.statements old

theorem statements_succ (ih : Numbered n) :
    DrawsNew (Grammar.statements (n + 1)) fun ss => Stmt.sourceIdsOfAll ss := by
  intro old
  have hmore : Draws old (do return (← Grammar.statement n) :: (← Grammar.statements n))
      fun ss => old ++ Stmt.sourceIdsOfAll ss := by
    apply (ih.statement old).bind
    intro s
    apply (ih.statements _).map
    intro more _ _ h
    simpa only [Stmt.sourceIdsOfAll, List.append_assoc] using h
  apply (drawsNone_peek _).bind
  intro t
  cases t.kind with
  | closeBrace =>
      apply (drawsNone_skip _).bind
      intro _
      exact .pure fun _ _ h => by simpa [Stmt.sourceIdsOfAll] using h
  | endOfFile => exact .throw
  | _ => exact hmore

theorem statement_succ (ih : Numbered n) :
    DrawsNew (Grammar.statement (n + 1)) fun s => s.sourceIds := by
  intro old
  apply (drawsNone_peek _).bind
  intro t
  cases t.kind with
  | funcWord =>
      apply (drawsNone_skip _).bind
      intro _
      apply (drawsNone_expect _ _ _).bind
      intro name
      exact (ih.named _ old).map fun _ _ _ h => h
  | classWord =>
      apply (drawsNone_skip _).bind
      intro _
      apply (drawsNone_expect _ _ _).bind
      intro name
      apply (drawsNone_expect _ _ _).bind
      intro _
      apply (ih.methods old).map
      intro methods _ _ h
      simpa [Stmt.sourceIds] using h
  | returnWord =>
      apply (drawsNone_skip _).bind
      intro _
      apply (drawsNone_peek _).bind
      intro next
      simp only
      split
      · exact .pure fun _ _ h => by simpa [Stmt.sourceIds] using h
      · exact (ih.expression old).map fun _ _ _ h => h
  | ifWord => exact (drawsNone_skip _).bind fun _ => ih.conditional old
  | whileWord =>
      apply (drawsNone_skip _).bind
      intro _
      apply (ih.expression old).bind
      intro test
      apply (ih.braced _ _).map
      intro body _ _ h
      simpa [Stmt.sourceIds] using h
  | openBrace =>
      apply (ih.braced _ old).map
      intro body _ _ h
      simpa [Stmt.sourceIds] using h
  | _ => exact ih.simple old

theorem conditional_succ (ih : Numbered n) :
    DrawsNew (Grammar.conditional (n + 1)) fun s => s.sourceIds := by
  intro old
  apply (ih.expression old).bind
  intro test
  apply (ih.braced _ _).bind
  intro thenBody
  apply (drawsNone_accept _ _).bind
  intro otherwise
  split
  · apply (drawsNone_accept _ _).bind
    intro another
    split
    · apply (ih.conditional _).map
      intro branch _ _ h
      simpa [Stmt.sourceIds] using h
    · apply (ih.braced _ _).map
      intro body _ _ h
      simpa [Stmt.sourceIds] using h
  · exact .pure fun _ _ h => by simpa [Stmt.sourceIds] using h

theorem methods_succ (ih : Numbered n) :
    DrawsNew (Grammar.methods (n + 1)) fun fs => Function.sourceIdsOfAll fs := by
  intro old
  apply (drawsNone_peek _).bind
  intro t
  simp only
  cases t.kind with
  | closeBrace =>
      apply (drawsNone_skip _).bind
      intro _
      exact .pure fun _ _ h => by simpa [Function.sourceIdsOfAll] using h
  | funcWord => exact (drawsNone_skip _).bind fun _ => ih.methods old
  | identifier =>
      apply (drawsNone_skip _).bind
      intro _
      apply (ih.named t.value old).bind
      intro function
      apply (ih.methods _).map
      intro more _ _ h
      simpa only [Function.sourceIdsOfAll, List.append_assoc] using h
  | _ => exact .throw

theorem updateOf (left : Expr) (op : UpdateOp) (old : List NodeId) :
    Draws (old ++ left.sourceIds) (Grammar.updateOf left op)
      fun s => old ++ s.sourceIds := by
  cases left with
  | var name id => exact .pure fun _ _ h => h
  | _ => exact .throw

/-- A declaration drops the id of its name, and an assignment keeps it before its value. -/
theorem simple_succ (ih : Numbered n) :
    DrawsNew (Grammar.simple (n + 1)) fun s => s.sourceIds := by
  intro old
  apply (ih.expression old).bind
  intro left
  apply (drawsNone_peek _).bind
  intro t
  cases t.kind with
  | declare =>
      apply (drawsNone_skip _).bind
      intro _
      cases left with
      | var name id =>
          apply (ih.expression _).map
          intro value _ _ h
          apply h.sublist
          simp [Stmt.sourceIds, Expr.sourceIds]
      | _ => exact .throw
  | equals =>
      apply (drawsNone_skip _).bind
      intro _
      apply (ih.expression _).bind
      intro value
      cases left with
      | var name id =>
          exact .pure fun _ _ h => by simpa [Stmt.sourceIds, Expr.sourceIds] using h
      | member object property =>
          exact .pure fun _ _ h => by simpa [Stmt.sourceIds, Expr.sourceIds] using h
      | _ => exact .throw
  | increment => exact (drawsNone_skip _).bind fun _ => updateOf left .increment old
  | decrement => exact (drawsNone_skip _).bind fun _ => updateOf left .decrement old
  | _ => exact .pure fun _ _ h => h

end Numbered

/-- All rules of the grammar draw the ids of what they give. -/
theorem numbered (n : Nat) : Numbered n := by
  induction n with
  | zero => exact .zero
  | succ n ih =>
      exact {
        expression := ih.operands Level.all
        operands := ih.operands_succ
        chain := ih.chain_succ
        unary := ih.unary_succ
        selections := ih.selections_succ
        arguments := ih.arguments_succ
        moreArguments := ih.moreArguments_succ
        primary := ih.primary_succ
        lambda := ih.lambda_succ
        named := ih.named_succ
        braced := ih.braced_succ
        statements := ih.statements_succ
        statement := ih.statement_succ
        conditional := ih.conditional_succ
        methods := ih.methods_succ
        simple := ih.simple_succ }

theorem draws_adaptExcept {α ε ε' : Type} {old : List NodeId} {ids : α → List NodeId}
    {p : EStateM ε Cursor α} (place : ε → ε') (h : Draws old p ids) :
    Draws old (EStateM.adaptExcept place p) ids := by
  intro c a c' hrun
  apply h c a c'
  unfold EStateM.adaptExcept at hrun
  cases hp : p c with
  | error e c₁ =>
      rw [hp] at hrun
      cases hrun
  | ok b c₁ =>
      rw [hp] at hrun
      cases hrun
      rfl

theorem drawsNew_program (n : Nat) : DrawsNew (program n) fun p => p.sourceIds := by
  induction n with
  | zero => exact fun _ => .throw
  | succ n ih =>
      intro old
      rw [program_succ]
      apply (drawsNone_of_tokens (by rintro c _ _ ⟨⟩; rfl) old).bind
      intro t
      split
      · exact .pure fun _ _ h => by simpa [Program.sourceIds] using h
      · apply (draws_adaptExcept _ ((numbered n).statement old)).bind
        intro s
        apply (ih _).map
        intro more _ _ h
        simpa only [Program.sourceIds, List.append_assoc] using h

end Grammar

/-- The ids of a parsed program are drawn by the parse in the order of the source. -/
theorem ascending_of_parse {tokens : List Token} {drawn : Nat} {p : Program}
    (hparse : (parse tokens drawn).result = .ok p)
    (few : (parse tokens drawn).drawn ≤ NodeId.count) :
    Ascending drawn (parse tokens drawn).drawn p.sourceIds := by
  have hrule := Grammar.drawsNew_program (Grammar.depthFor tokens) [] ⟨tokens, drawn⟩
  unfold parse at hparse few ⊢
  cases hrun : Grammar.program (Grammar.depthFor tokens) ⟨tokens, drawn⟩ with
  | error e c =>
      rw [hrun] at hparse
      cases hparse
  | ok q c =>
      rw [hrun] at hparse few
      cases hparse
      exact (hrule p c hrun).2 few drawn (.nil (Nat.le_refl _))

/-- The ids of a parsed program are all different, and have been drawn by the parse. -/
theorem drawn_of_parse {tokens : List Token} {drawn : Nat} {p : Program}
    (hparse : (parse tokens drawn).result = .ok p)
    (few : (parse tokens drawn).drawn ≤ NodeId.count) :
    Drawn drawn (parse tokens drawn).drawn (Step.idsOfAll (Program.steps p)) :=
  (ascending_of_parse hparse few).toDrawn.perm p.sourceIds_perm

end Kiln
