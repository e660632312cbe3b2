/-
Module: Kiln.Proofs.Grammar.Parsed
Purpose: What the grammar gives. Of every rule it is said which trees it makes, at which tokens it stops,
  and how the first token it reads shows in the printed form of the tree: an expression that does not
  begin with a parenthesis or a minus sign is printed without one in front. From this the trees of a
  program are well formed, because a statement that ends in an expression stops at a token that does
  not go on with it.
Main exports: AllNames, Expr.Sound, Stmt.SoundAll, Grammar.Sound, Grammar.sound, parse_sound
-/
import Kiln.Proofs.Grammar.LookAhead
import Kiln.Proofs.Grammar.Triples
import Kiln.Proofs.Lexing.Vocabulary
import Kiln.Proofs.Number.Numerals
import Kiln.Proofs.Tree.Names

namespace Kiln

open Kiln.Text Kiln.Lexer Kiln.Parser

/-! ### Sound trees -/

/-- All of these are names. -/
def AllNames (names : List String) : Prop := ∀ name ∈ names, isName name = true

@[simp]
theorem allNames_nil : AllNames [] := nofun

@[simp]
theorem allNames_cons {name : String} {rest : List String} :
    AllNames (name :: rest) ↔ isName name = true ∧ AllNames rest := by
  simp [AllNames]

@[simp]
theorem allNames_append {first second : List String} :
    AllNames (first ++ second) ↔ AllNames first ∧ AllNames second := by
  simp [AllNames, or_imp, forall_and]

/-- The expression is well formed, and its names are names. -/
def Expr.Sound (e : Expr) : Prop := e.wellFormed = true ∧ AllNames e.names

/-- The expressions are well formed, and their names are names. -/
def Expr.SoundAll (es : List Expr) : Prop :=
  Expr.wellFormedAll es = true ∧ AllNames (Expr.namesOfAll es)

/-- The statement is well formed, and its names are names. -/
def Stmt.Sound (s : Stmt) : Prop := s.wellFormed = true ∧ AllNames s.names

/-- The statements are well formed as a list, and their names are names. -/
def Stmt.SoundAll (ss : List Stmt) : Prop :=
  Stmt.wellFormedAll ss = true ∧ AllNames (Stmt.namesOfAll ss)

/-- The functions are well formed as methods, and their names are names. -/
def Function.SoundAll (fs : List Function) : Prop :=
  Function.wellFormedAll fs = true ∧ AllNames (Function.namesOfAll fs)

/-! ### Tokens that the lexer makes -/

/-- Names and numbers are written as the lexer reads them. -/
structure Token.Legible (t : Token) : Prop where
  name : t.kind = .identifier → isName t.value = true
  number : t.kind = .number → ∃ c rest, t.value = String.ofList (c :: rest) ∧ isNumeric c = true

theorem Token.Legible.of_other {t : Token} (name : t.kind ≠ .identifier) (number : t.kind ≠ .number) :
    t.Legible :=
  ⟨fun hkind => absurd hkind name, fun hkind => absurd hkind number⟩

/-- All tokens are as the lexer makes them. -/
def LegibleAll (tokens : List Token) : Prop := ∀ t ∈ tokens, t.Legible

theorem LegibleAll.head {t : Token} {rest : List Token} (h : LegibleAll (t :: rest)) : t.Legible :=
  h t List.mem_cons_self

theorem LegibleAll.tail {t : Token} {rest : List Token} (h : LegibleAll (t :: rest)) :
    LegibleAll rest :=
  fun u hu => h u (List.mem_cons_of_mem t hu)

/-- Whether a token can also go on with an expression before it. -/
def Token.isTight (t : Token) : Bool :=
  t.kind == .openParen || t.kind == .binaryOperator && t.value == "-"

theorem opensTight_cons (t : Token) (rest : List Token) : opensTight (t :: rest) = t.isTight := rfl

/-- What begins with the tokens of an expression is as tight as that. -/
theorem Expr.opensTight_append (e : Expr) (rest : List Token) :
    opensTight (e.bare ++ rest) = opensTight e.bare := by
  obtain ⟨t, ts, hts, -⟩ := e.exists_bare_eq_cons
  rw [hts]
  rfl

/-- A token before which an expression ends does not go on with it. -/
theorem Ends.isTight_eq_false {rest : List Token} (h : Ends 0 rest) : (front rest).isTight = false := by
  simp only [Token.isTight, Bool.or_eq_false_iff, beq_eq_false_iff_ne]
  refine ⟨h.paren, ?_⟩
  rw [← Bool.not_eq_true]
  intro hminus
  simp only [Bool.and_eq_true, beq_iff_eq] at hminus
  have hop : Connective.ofToken? (front rest) = some (.binary .sub) := by
    simp only [Connective.ofToken?, hminus]
    rfl
  exact absurd (h.operator _ hop) (Nat.not_lt_zero _)

/-! ### What is said about each rule -/

namespace Grammar

/-- The expression `e` has been read from the tokens `before`, and `after` are left. If no parenthesis or minus
    sign came first, then `e` is printed for a place of this rank without one. -/
structure Begun (rank : Nat) (before : List Token) (e : Expr) (after : List Token) : Prop where
  sound : e.Sound
  legible : LegibleAll after
  starts : (front before).kind ≠ .closeBrace
  tight : (front before).isTight = false → rank ≤ e.rank ∧ opensTight e.bare = false

/-- An expression of this rank has been read to its end. -/
def Done (rank : Nat) (before : List Token) (e : Expr) (after : List Token) : Prop :=
  Begun rank before e after ∧ Ends rank after

end Grammar

/-- The statement does not go on with these tokens. -/
structure Stmt.EndsBefore (s : Stmt) (rest : List Token) : Prop where
  expr : s.endsInExpr = true → Ends 0 rest
  bareReturn : s.isBareReturn = true →
    (front rest).kind = .closeBrace ∨ (front rest).kind = .endOfFile

theorem Stmt.EndsBefore.of_expr {s : Stmt} {rest : List Token} (bare : s.isBareReturn = false)
    (h : Ends 0 rest) : s.EndsBefore rest :=
  ⟨fun _ => h, fun hbare => absurd (bare.symm.trans hbare) Bool.false_ne_true⟩

/-- A statement that ends with a brace or an operator. -/
theorem Stmt.EndsBefore.of_closed {s : Stmt} (expr : s.endsInExpr = false)
    (bare : s.isBareReturn = false) (rest : List Token) : s.EndsBefore rest :=
  ⟨fun hexpr => absurd (expr.symm.trans hexpr) Bool.false_ne_true,
    fun hbare => absurd (bare.symm.trans hbare) Bool.false_ne_true⟩

namespace Grammar

/-- The statement `s` has been read from the tokens `before`, and `after` are left. -/
structure Read (before : List Token) (s : Stmt) (after : List Token) : Prop where
  sound : s.Sound
  legible : LegibleAll after
  starts : (front before).kind ≠ .closeBrace
  tight : (front before).isTight = false → opensTight s.print = false
  ends : s.EndsBefore after

/-- What all rules of the grammar give when they may be nested up to `n` deep. -/
structure Sound (n : Nat) : Prop where
  expression : ∀ {ts}, LegibleAll ts → Ensures (expression n) ts (Done 0 ts)
  operands : ∀ {ts rank}, rank ≤ 6 → LegibleAll ts →
    Ensures (operands n (Level.all.drop rank)) ts (Done rank ts)
  chain : ∀ {before left ts level}, Begun level.rank before left ts → Ends (level.rank + 1) ts →
    Ensures (chain n level (Level.all.drop (level.rank + 1)) left) ts (Done level.rank before)
  unary : ∀ {ts}, LegibleAll ts → Ensures (unary n) ts (Done 6 ts)
  selections : ∀ {before e ts}, Begun 7 before e ts →
    Ensures (selections n e) ts fun e' after => Begun 7 before e' after ∧ Ends 6 after
  arguments : ∀ {ts}, LegibleAll ts →
    Ensures (arguments n) ts fun es after => Expr.SoundAll es ∧ LegibleAll after
  moreArguments : ∀ {ts}, LegibleAll ts →
    Ensures (moreArguments n) ts fun es after => Expr.SoundAll es ∧ LegibleAll after
  primary : ∀ {ts}, LegibleAll ts → Ensures (primary n) ts (Begun 8 ts)
  lambda : ∀ {ts}, LegibleAll ts →
    Ensures (lambda n) ts fun e after => e.Sound ∧ LegibleAll after
  named : ∀ {ts name}, isName name = true → LegibleAll ts →
    Ensures (named n name) ts fun f after => Function.SoundAll [f] ∧ LegibleAll after
  braced : ∀ {ts owner}, LegibleAll ts →
    Ensures (braced n owner) ts fun ss after => Stmt.SoundAll ss ∧ LegibleAll after
  statements : ∀ {ts}, LegibleAll ts →
    Ensures (statements n) ts fun ss after => Stmt.SoundAll ss ∧ LegibleAll after
      ∧ ∀ s : Stmt, s.EndsBefore ts → s.precedes ss = true
  statement : ∀ {ts}, LegibleAll ts → Ensures (statement n) ts (Read ts)
  conditional : ∀ {ts}, LegibleAll ts →
    Ensures (conditional n) ts fun s after => s.Sound ∧ s.isAlternative = true ∧ LegibleAll after
  methods : ∀ {ts}, LegibleAll ts →
    Ensures (methods n) ts fun fs after => Function.SoundAll fs ∧ LegibleAll after
  simple : ∀ {ts}, LegibleAll ts → Ensures (simple n) ts (Read ts)

theorem sound_zero : Sound 0 := by
  constructor <;> intros <;> exact .throw

/-! ### Expressions -/

theorem Begun.mono {low high : Nat} {before after : List Token} {e : Expr}
    (h : Begun high before e after) (hle : low ≤ high) : Begun low before e after :=
  { h with tight := fun hfront => ⟨Nat.le_trans hle (h.tight hfront).1, (h.tight hfront).2⟩ }

namespace Sound

variable {n : Nat} {ts : List Token}

theorem operands_succ (ih : Sound n) {rank : Nat} (hrank : rank ≤ 6) (h : LegibleAll ts) :
    Ensures (Grammar.operands (n + 1) (Level.all.drop rank)) ts (Done rank ts) := by
  by_cases hunary : rank = 6
  · subst hunary
    exact ih.unary h
  · obtain ⟨level, rfl⟩ := Level.exists_rank_eq (Nat.lt_of_le_of_ne hrank hunary)
    rw [Level.drop_rank, Grammar.operands]
    refine .bind (ih.operands (Level.rank_lt level) h) fun left after hleft => ?_
    exact ih.chain (hleft.1.mono (Nat.le_succ _)) hleft.2

theorem sound_join (c : Connective) {left right : Expr} (hl : left.Sound) (hr : right.Sound) :
    (c.join left right).Sound := by
  cases c <;> simp_all [Connective.join, Expr.Sound, Expr.wellFormed, Expr.names]

theorem tight_join (c : Connective) {left right : Expr} (hrank : c.level.rank ≤ left.rank)
    (htight : opensTight left.bare = false) :
    c.level.rank ≤ (c.join left right).rank ∧ opensTight (c.join left right).bare = false := by
  rw [Connective.rank_level] at hrank ⊢
  refine ⟨Nat.le_of_eq (c.rank_join left right).symm, ?_⟩
  rw [Connective.bare_join, Expr.printed, decide_eq_false (Nat.not_lt.2 hrank), parenthesized,
    if_neg Bool.false_ne_true, Expr.opensTight_append, htight]

theorem chain_succ (ih : Sound n) {before : List Token} {left : Expr} {level : Level}
    (h : Begun level.rank before left ts) (hends : Ends (level.rank + 1) ts) :
    Ensures (Grammar.chain (n + 1) level (Level.all.drop (level.rank + 1)) left) ts
      (Done level.rank before) := by
  rw [Grammar.chain]
  refine .peek ?_
  split
  · next hnone =>
    refine .pure ⟨h, { hends with operator := fun c hc => ?_ }⟩
    refine Nat.lt_of_le_of_ne (Nat.le_of_lt_succ (hends.operator c hc)) fun hrank => ?_
    rw [Level.connective?, hc, Option.filter_eq_none_iff] at hnone
    exact hnone c rfl (decide_eq_true (Level.rank_injective hrank))
  · next c hc =>
    rw [Level.connective?, Option.filter_eq_some_iff] at hc
    obtain rfl : c.level = level := of_decide_eq_true hc.2
    refine .skip ?_
    rintro t rest rfl
    refine .bind (ih.operands (Level.rank_lt _) h.legible.tail) fun right after hright => ?_
    refine ih.chain ⟨sound_join c h.sound hright.1.sound, hright.1.legible, h.starts, ?_⟩ hright.2
    exact fun hfront => tight_join c (h.tight hfront).1 (h.tight hfront).2

theorem isTight_of_negate {t : Token} (h : UnaryOp.ofToken? t = some .negate) : t.isTight = true := by
  unfold UnaryOp.ofToken? at h
  split at h
  · cases h
  · next hkind =>
    split at h
    · next hvalue => simp [Token.isTight, hkind, hvalue]
    · cases h
  · cases h

theorem unary_succ (ih : Sound n) (h : LegibleAll ts) :
    Ensures (Grammar.unary (n + 1)) ts (Done 6 ts) := by
  rw [Grammar.unary]
  refine .peek ?_
  split
  · next op hop =>
    refine .skip ?_
    rintro t rest rfl
    refine .map (ih.unary h.tail) fun e after he => ⟨⟨he.1.sound, he.1.legible, ?_, ?_⟩, he.2⟩
    · rintro (hkind : t.kind = _)
      rw [front_cons, UnaryOp.ofToken?, hkind] at hop
      cases hop
    · intro hfront
      cases op with
      | not => exact ⟨Nat.le_refl _, rfl⟩
      | negate => exact absurd (hfront.symm.trans (isTight_of_negate hop)) Bool.false_ne_true
  · refine .bind (ih.primary h) fun e rest he => ?_
    refine (ih.selections (he.mono (by decide))).mono fun e' after he' => ?_
    exact ⟨he'.1.mono (by decide), he'.2⟩

theorem tight_selection {e : Expr} (rest : List Token)
    (h : 7 ≤ e.rank ∧ opensTight e.bare = false) :
    opensTight (parenthesized (e.rank < 7) e.bare ++ rest) = false := by
  rw [decide_eq_false (Nat.not_lt.2 h.1), parenthesized, if_neg Bool.false_ne_true,
    Expr.opensTight_append, h.2]

theorem selections_succ (ih : Sound n) {before : List Token} {e : Expr} (h : Begun 7 before e ts) :
    Ensures (Grammar.selections (n + 1) e) ts
      fun e' after => Begun 7 before e' after ∧ Ends 6 after := by
  have hsound := h.sound
  rw [Grammar.selections]
  refine .peek ?_
  split
  · refine .skip ?_
    rintro t rest rfl
    refine .expect ?_
    rintro property after rfl hkind
    have hname := h.legible.tail.head.name hkind
    refine ih.selections ⟨?_, h.legible.tail.tail, h.starts, fun hfront => ⟨Nat.le_refl _, ?_⟩⟩
    · simp_all [Expr.Sound, Expr.wellFormed, Expr.names]
    · exact tight_selection _ (h.tight hfront)
  · refine .skip ?_
    rintro t rest rfl
    refine .bind (ih.arguments h.legible.tail) fun args after hargs => ?_
    refine ih.selections ⟨?_, hargs.2, h.starts, fun hfront => ⟨Nat.le_refl _, ?_⟩⟩
    · simp_all [Expr.Sound, Expr.SoundAll, Expr.wellFormed, Expr.names]
    · rw [Expr.bare, List.append_assoc]
      exact tight_selection _ (h.tight hfront)
  · next hdot hparen =>
    exact .pure ⟨h, ⟨fun hkind => hparen hkind, fun hkind => hdot hkind,
      fun c _ => Level.rank_lt c.level⟩⟩

theorem moreArguments_succ (ih : Sound n) (h : LegibleAll ts) :
    Ensures (Grammar.moreArguments (n + 1)) ts
      fun es after => Expr.SoundAll es ∧ LegibleAll after := by
  rw [Grammar.moreArguments]
  refine .accept ?_ fun _ => .expect ?_
  · rintro t rest rfl -
    refine .bind (ih.expression h.tail) fun e after he => ?_
    refine .map (ih.moreArguments he.1.legible) fun es after hes => ⟨?_, hes.2⟩
    have hsound := he.1.sound
    simp_all [Expr.Sound, Expr.SoundAll, Expr.wellFormedAll, Expr.namesOfAll]
  · rintro t rest rfl -
    exact .pure ⟨by simp [Expr.SoundAll, Expr.wellFormedAll, Expr.namesOfAll], h.tail⟩

theorem arguments_succ (ih : Sound n) (h : LegibleAll ts) :
    Ensures (Grammar.arguments (n + 1)) ts fun es after => Expr.SoundAll es ∧ LegibleAll after := by
  rw [Grammar.arguments]
  refine .accept ?_ fun _ => ?_
  · rintro t rest rfl -
    exact .pure ⟨by simp [Expr.SoundAll, Expr.wellFormedAll, Expr.namesOfAll], h.tail⟩
  · refine .bind (ih.expression h) fun e after he => ?_
    refine .map (ih.moreArguments he.1.legible) fun es after hes => ⟨?_, hes.2⟩
    have hsound := he.1.sound
    simp_all [Expr.Sound, Expr.SoundAll, Expr.wellFormedAll, Expr.namesOfAll]

/-- An expression of one token, which is not tight. -/
theorem begun_of_single {t u : Token} {rest : List Token} {e : Expr} (h : LegibleAll (t :: rest))
    (hkind : t.kind ≠ .closeBrace) (hsound : e.Sound) (hrank : e.rank = 8) (hbare : e.bare = [u])
    (hu : u.isTight = false) : Begun 8 (t :: rest) e rest :=
  ⟨hsound, h.tail, hkind, fun _ => ⟨Nat.le_of_eq hrank.symm, by rw [hbare, opensTight_cons, hu]⟩⟩

theorem ensures_single {u : Token} {e : Expr} (h : LegibleAll ts)
    (hkind : (front ts).kind ≠ .closeBrace) (hsound : e.Sound) (hrank : e.rank = 8)
    (hbare : e.bare = [u]) (hu : u.isTight = false) :
    Ensures (do skip; return e) ts (Begun 8 ts) := by
  refine .skip ?_
  rintro t rest rfl
  exact .pure (begun_of_single h hkind hsound hrank hbare hu)

theorem primary_succ (ih : Sound n) (h : LegibleAll ts) :
    Ensures (Grammar.primary (n + 1)) ts (Begun 8 ts) := by
  rw [Grammar.primary]
  refine .peek ?_
  split
  · next hkind =>
    refine .skip ?_
    rintro t rest rfl
    rw [front_cons] at hkind ⊢
    split
    · next value hvalue =>
      obtain ⟨c, digits, htext, hnumeric⟩ := h.head.number hkind
      rw [htext] at hvalue
      have hnonneg := Decimal.nonneg_of_read? hnumeric hvalue
      exact .pure (begun_of_single h (by simp [hkind])
        ⟨decide_eq_true hnonneg, allNames_nil⟩ rfl rfl rfl)
    · exact .throw
  · next hkind => exact ensures_single h (by simp [hkind]) ⟨rfl, allNames_nil⟩ rfl rfl rfl
  · next hkind => exact ensures_single h (by simp [hkind]) ⟨rfl, allNames_nil⟩ rfl rfl rfl
  · next hkind => exact ensures_single h (by simp [hkind]) ⟨rfl, allNames_nil⟩ rfl rfl rfl
  · next hkind =>
    refine .skip ?_
    rintro t rest rfl
    refine .freshId fun id => .pure (begun_of_single h (by simp_all) ⟨rfl, ?_⟩ rfl rfl rfl)
    exact allNames_cons.2 ⟨h.head.name hkind, allNames_nil⟩
  · next hkind =>
    refine .skip ?_
    rintro t rest rfl
    exact .freshId fun id =>
      .pure (begun_of_single h (by simp_all) ⟨rfl, allNames_nil⟩ rfl rfl rfl)
  · next hkind =>
    have htight : (front ts).isTight = true := by simp [Token.isTight, hkind]
    have hbegun : ∀ {e : Expr} {after}, e.Sound → LegibleAll after → Begun 8 ts e after :=
      fun hsound hafter => ⟨hsound, hafter, by simp [hkind], by simp [htight]⟩
    refine .atFunction ?_
    split
    · exact (ih.lambda h).mono fun e after he => hbegun he.1 he.2
    · refine .skip ?_
      rintro t rest rfl
      refine .bind (ih.expression h.tail) fun e after he => .expect ?_
      rintro u after rfl -
      exact .pure (hbegun he.1.sound he.1.legible.tail)
  · exact .throw
  · exact .throw

/-! ### Functions -/

theorem ensures_optionalType (h : LegibleAll ts) :
    Ensures optionalType ts fun type after => AllNames type.toList ∧ LegibleAll after := by
  refine .peek ?_
  split
  · next hkind =>
    refine .take ?_
    rintro t rest rfl
    exact .pure ⟨allNames_cons.2 ⟨h.head.name hkind, allNames_nil⟩, h.tail⟩
  · exact .pure ⟨allNames_nil, h⟩

theorem ensures_parameter (h : LegibleAll ts) :
    Ensures parameter ts fun p after => AllNames p.names ∧ LegibleAll after := by
  refine .expect ?_
  rintro t rest rfl hkind
  have hname := h.head.name hkind
  have htype : ∀ {rest}, LegibleAll rest → Ensures (do return (⟨t.value, ← optionalType⟩ : Param)) rest
      fun p after => AllNames p.names ∧ LegibleAll after :=
    fun hrest => .map (ensures_optionalType hrest) fun type after htype =>
      ⟨allNames_cons.2 ⟨hname, htype.1⟩, htype.2⟩
  refine .accept ?_ fun _ => htype h.tail
  rintro colon after rfl -
  exact htype h.tail.tail

theorem ensures_parametersFrom (n : Nat) (h : LegibleAll ts) :
    Ensures (parametersFrom n) ts
      fun ps after => AllNames (ps.flatMap Param.names) ∧ LegibleAll after := by
  induction n generalizing ts with
  | zero => exact .throw
  | succ n ih =>
      rw [parametersFrom]
      refine .accept ?_ fun _ => ?_
      · rintro t rest rfl -
        exact .pure ⟨allNames_nil, h.tail⟩
      · refine .bind (ensures_parameter h) fun p rest hp => ?_
        have hmore : ∀ {rest}, LegibleAll rest → Ensures (do return p :: (← parametersFrom n)) rest
            fun ps after => AllNames (ps.flatMap Param.names) ∧ LegibleAll after :=
          fun hrest => .map (ih hrest) fun ps after hps => ⟨by simp [hp.1, hps.1], hps.2⟩
        refine .accept ?_ fun _ => .peek ?_
        · rintro t rest rfl -
          refine .peek ?_
          split
          · exact .throw
          · exact hmore hp.2.tail
        · split
          · exact .throw
          · exact hmore hp.2

theorem ensures_parameters (n : Nat) (h : LegibleAll ts) :
    Ensures (parameters n) ts
      fun ps after => AllNames (ps.flatMap Param.names) ∧ LegibleAll after := by
  refine .expect ?_
  rintro t rest rfl -
  exact ensures_parametersFrom n h.tail

theorem lambda_succ (ih : Sound n) (h : LegibleAll ts) :
    Ensures (Grammar.lambda (n + 1)) ts fun e after => e.Sound ∧ LegibleAll after := by
  rw [Grammar.lambda]
  refine .bind (ensures_parameters n h) fun params rest hparams => ?_
  refine .bind (ensures_optionalType hparams.2) fun returnType rest htype => .expect ?_
  rintro t rest rfl -
  refine .map (ih.braced htype.2.tail) fun body after hbody => ⟨?_, hbody.2⟩
  simp_all [Expr.Sound, Stmt.SoundAll, Expr.wellFormed, Function.wellFormed, Expr.names,
    Function.names]

theorem named_succ (ih : Sound n) {name : String} (hname : isName name = true) (h : LegibleAll ts) :
    Ensures (Grammar.named (n + 1) name) ts
      fun f after => Function.SoundAll [f] ∧ LegibleAll after := by
  rw [Grammar.named]
  refine .bind (ensures_parameters n h) fun params rest hparams => ?_
  refine .bind (ensures_optionalType hparams.2) fun returnType rest htype => ?_
  refine .map (ih.braced htype.2) fun body after hbody => ⟨?_, hbody.2⟩
  simp_all [Function.SoundAll, Stmt.SoundAll, Function.wellFormedAll, Function.wellFormed,
    Function.namesOfAll, Function.names]

theorem methods_succ (ih : Sound n) (h : LegibleAll ts) :
    Ensures (Grammar.methods (n + 1)) ts
      fun fs after => Function.SoundAll fs ∧ LegibleAll after := by
  rw [Grammar.methods]
  refine .peek ?_
  split
  · refine .skip ?_
    rintro t rest rfl
    exact .pure ⟨by simp [Function.SoundAll, Function.wellFormedAll, Function.namesOfAll], h.tail⟩
  · refine .skip ?_
    rintro t rest rfl
    exact ih.methods h.tail
  · next hkind =>
    refine .skip ?_
    rintro t rest rfl
    refine .bind (ih.named (h.head.name hkind) h.tail) fun f rest hf => ?_
    refine .map (ih.methods hf.2) fun fs after hfs => ⟨?_, hfs.2⟩
    simp_all [Function.SoundAll, Function.wellFormedAll, Function.namesOfAll]
  · exact .throw
  · exact .throw

/-! ### Statements -/

theorem braced_succ (ih : Sound n) {owner : String} (h : LegibleAll ts) :
    Ensures (Grammar.braced (n + 1) owner) ts
      fun ss after => Stmt.SoundAll ss ∧ LegibleAll after := by
  refine .expect ?_
  rintro t rest rfl -
  exact (ih.statements h.tail).mono fun ss after hss => ⟨hss.1, hss.2.1⟩

/-- A statement can stand before another one that is read where it ends. -/
theorem precedes_cons {prev s : Stmt} {more : List Stmt} {after : List Token}
    (hprev : prev.EndsBefore ts) (hend : (front ts).kind ≠ .endOfFile) (hs : Read ts s after) :
    prev.precedes (s :: more) = true := by
  have hret : prev.isBareReturn = false := by
    rw [← Bool.not_eq_true]
    intro hret
    exact (hprev.bareReturn hret).elim hs.starts hend
  cases hends : prev.endsInExpr with
  | false => simp [Stmt.precedes, hret, hends]
  | true =>
      have htight := hs.tight (hprev.expr hends).isTight_eq_false
      simp [Stmt.precedes, hret, htight]

theorem soundAll_cons {s : Stmt} {ss : List Stmt} (hs : s.Sound) (hss : Stmt.SoundAll ss)
    (hprecedes : s.precedes ss = true) : Stmt.SoundAll (s :: ss) := by
  simp_all [Stmt.Sound, Stmt.SoundAll, Stmt.wellFormedAll, Stmt.namesOfAll]

theorem soundAll_nil : Stmt.SoundAll [] := ⟨rfl, allNames_nil⟩

theorem statements_succ (ih : Sound n) (h : LegibleAll ts) :
    Ensures (Grammar.statements (n + 1)) ts fun ss after => Stmt.SoundAll ss ∧ LegibleAll after
      ∧ ∀ s : Stmt, s.EndsBefore ts → s.precedes ss = true := by
  rw [Grammar.statements]
  refine .peek ?_
  split
  · refine .skip ?_
    rintro t rest rfl
    exact .pure ⟨soundAll_nil, h.tail, fun _ _ => rfl⟩
  · exact .throw
  · next hclose hend =>
    refine .bind (ih.statement h) fun s rest hs => ?_
    refine .map (ih.statements hs.legible) fun ss after hss => ?_
    exact ⟨soundAll_cons hs.sound hss.1 (hss.2.2 s hs.ends), hss.2.1,
      fun prev hprev => precedes_cons hprev (fun hkind => hend hkind) hs⟩

theorem conditional_succ (ih : Sound n) (h : LegibleAll ts) :
    Ensures (Grammar.conditional (n + 1)) ts
      fun s after => s.Sound ∧ s.isAlternative = true ∧ LegibleAll after := by
  rw [Grammar.conditional]
  refine .bind (ih.expression h) fun test rest htest => ?_
  refine .bind (ih.braced htest.1.legible) fun body rest hbody => ?_
  have hsound := htest.1.sound
  refine .accept ?_ fun _ => .pure ⟨?_, rfl, hbody.2⟩
  · rintro t rest rfl -
    refine .accept ?_ fun _ => ?_
    · rintro u rest rfl -
      refine .map (ih.conditional hbody.2.tail.tail) fun other after hother => ⟨?_, rfl, hother.2.2⟩
      simp_all [Stmt.Sound, Stmt.SoundAll, Expr.Sound, Stmt.wellFormed, Stmt.names, Stmt.isBlock]
    · refine .map (ih.braced hbody.2.tail) fun other after hother => ⟨?_, rfl, hother.2⟩
      simp_all [Stmt.Sound, Stmt.SoundAll, Expr.Sound, Stmt.wellFormed, Stmt.names, Stmt.isBlock,
        Stmt.isAlternative]
  · simp_all [Stmt.Sound, Stmt.SoundAll, Expr.Sound, Stmt.wellFormed, Stmt.names, Stmt.isBlock]

theorem simple_succ (ih : Sound n) (h : LegibleAll ts) :
    Ensures (Grammar.simple (n + 1)) ts (Read ts) := by
  rw [Grammar.simple]
  refine .bind (ih.expression h) fun left rest hleft => .peek ?_
  have hsound := hleft.1.sound
  have hupdate : ∀ {op rest}, LegibleAll rest → Ensures (updateOf left op) rest (Read ts) := by
    intro op rest hrest
    unfold updateOf
    split
    · exact .pure ⟨⟨rfl, hsound.2⟩, hrest, hleft.1.starts, fun _ => rfl, .of_closed rfl rfl _⟩
    · exact .throw
  split
  · refine .skip ?_
    rintro t rest rfl
    split
    · refine .map (ih.expression hleft.1.legible.tail) fun value after hvalue => ?_
      have hvalueSound := hvalue.1.sound
      refine ⟨?_, hvalue.1.legible, hleft.1.starts, fun _ => rfl, .of_expr rfl hvalue.2⟩
      simp_all [Stmt.Sound, Expr.Sound, Stmt.wellFormed, Stmt.names, Expr.names]
    · exact .throw
  · refine .skip ?_
    rintro t rest rfl
    refine .bind (ih.expression hleft.1.legible.tail) fun value after hvalue => ?_
    have hvalueSound := hvalue.1.sound
    split
    · refine .pure ⟨?_, hvalue.1.legible, hleft.1.starts, fun _ => rfl, .of_expr rfl hvalue.2⟩
      simp_all [Stmt.Sound, Expr.Sound, Stmt.wellFormed, Stmt.names, Expr.names]
    · next object property =>
      refine .pure ⟨?_, hvalue.1.legible, hleft.1.starts, fun hfront => ?_,
        .of_expr rfl hvalue.2⟩
      · simp_all [Stmt.Sound, Expr.Sound, Stmt.wellFormed, Stmt.names, Expr.wellFormed, Expr.names]
      · -- The target is printed as the member access that was read.
        have htarget := (hleft.1.tight hfront).2
        rw [Stmt.print_setMember, Expr.opensTight_append, htarget]
    · exact .throw
  · refine .skip ?_
    rintro t rest rfl
    exact hupdate hleft.1.legible.tail
  · refine .skip ?_
    rintro t rest rfl
    exact hupdate hleft.1.legible.tail
  · exact .pure ⟨hsound, hleft.1.legible, hleft.1.starts, fun hfront => (hleft.1.tight hfront).2,
      .of_expr rfl hleft.2⟩

theorem endsBefore_of_isAlternative {s : Stmt} (h : s.isAlternative = true) (rest : List Token) :
    s.EndsBefore rest := by
  cases s with
  | block body => exact .of_closed rfl rfl _
  | ifElse test thenBranch elseBranch => exact .of_closed rfl rfl _
  | _ => cases h

theorem opensTight_of_isAlternative {s : Stmt} (h : s.isAlternative = true) :
    opensTight s.print = false := by
  cases s with
  | block body => rfl
  | ifElse test thenBranch elseBranch => cases elseBranch <;> rfl
  | _ => cases h

theorem statement_succ (ih : Sound n) (h : LegibleAll ts) :
    Ensures (Grammar.statement (n + 1)) ts (Read ts) := by
  rw [Grammar.statement]
  refine .peek ?_
  split
  · next hkind =>
    have hstart : (front ts).kind ≠ .closeBrace := by simp [hkind]
    refine .skip ?_
    rintro t rest rfl
    refine .expect ?_
    rintro name rest rfl hname
    refine .map (ih.named (h.tail.head.name hname) h.tail.tail) fun f after hf => ?_
    refine ⟨?_, hf.2, hstart, fun _ => rfl, .of_closed rfl rfl _⟩
    simp_all [Function.SoundAll, Function.wellFormedAll, Function.namesOfAll, Stmt.Sound,
      Stmt.wellFormed, Stmt.names]
  · next hkind =>
    have hstart : (front ts).kind ≠ .closeBrace := by simp [hkind]
    refine .skip ?_
    rintro t rest rfl
    refine .expect ?_
    rintro name rest rfl hname
    refine .expect ?_
    rintro brace rest rfl -
    refine .map (ih.methods h.tail.tail.tail) fun fs after hfs => ?_
    refine ⟨⟨hfs.1.1, allNames_cons.2 ⟨h.tail.head.name hname, hfs.1.2⟩⟩, hfs.2, hstart,
      fun _ => rfl, .of_closed rfl rfl _⟩
  · next hkind =>
    have hstart : (front ts).kind ≠ .closeBrace := by simp [hkind]
    refine .skip ?_
    rintro t rest rfl
    refine .peek ?_
    split
    · next hlast =>
      exact .pure ⟨⟨rfl, allNames_nil⟩, h.tail, hstart, fun _ => rfl,
        ⟨fun hexpr => absurd hexpr Bool.false_ne_true, fun _ => hlast⟩⟩
    · refine .map (ih.expression h.tail) fun value after hvalue => ?_
      exact ⟨hvalue.1.sound, hvalue.1.legible, hstart, fun _ => rfl,
        .of_expr rfl hvalue.2⟩
  · next hkind =>
    have hstart : (front ts).kind ≠ .closeBrace := by simp [hkind]
    refine .skip ?_
    rintro t rest rfl
    refine (ih.conditional h.tail).mono fun s after hs => ?_
    exact ⟨hs.1, hs.2.2, hstart, fun _ => opensTight_of_isAlternative hs.2.1,
      endsBefore_of_isAlternative hs.2.1 after⟩
  · next hkind =>
    have hstart : (front ts).kind ≠ .closeBrace := by simp [hkind]
    refine .skip ?_
    rintro t rest rfl
    refine .bind (ih.expression h.tail) fun test rest htest => ?_
    refine .map (ih.braced htest.1.legible) fun body after hbody => ?_
    have hsound := htest.1.sound
    refine ⟨?_, hbody.2, hstart, fun _ => rfl, .of_closed rfl rfl _⟩
    simp_all [Stmt.Sound, Stmt.SoundAll, Expr.Sound, Stmt.wellFormed, Stmt.names, Stmt.isBlock]
  · next hkind =>
    refine .map (ih.braced h) fun body after hbody => ?_
    exact ⟨hbody.1, hbody.2, by simp [hkind], fun _ => rfl, .of_closed rfl rfl _⟩
  · exact ih.simple h

end Sound

/-- What all rules of the grammar give, however deep they are nested. -/
theorem sound (n : Nat) : Sound n := by
  induction n with
  | zero => exact sound_zero
  | succ n ih =>
      exact {
        expression := fun h => ih.operands (Nat.zero_le 6) h
        operands := ih.operands_succ
        chain := ih.chain_succ
        unary := ih.unary_succ
        selections := ih.selections_succ
        arguments := ih.arguments_succ
        moreArguments := ih.moreArguments_succ
        primary := ih.primary_succ
        lambda := ih.lambda_succ
        named := ih.named_succ
        braced := ih.braced_succ
        statements := ih.statements_succ
        statement := ih.statement_succ
        conditional := ih.conditional_succ
        methods := ih.methods_succ
        simple := ih.simple_succ }

/-- A program is read as a list of statements is, up to the end of the source. -/
theorem program_sound {n drawn : Nat} {ts : List Token} {p : Program} {c : Cursor} (h : LegibleAll ts)
    (hrun : program n ⟨ts, drawn⟩ = .ok p c) :
    Stmt.SoundAll p.statements
      ∧ ∀ s : Stmt, s.EndsBefore ts → s.precedes p.statements = true := by
  induction n generalizing ts drawn p c with
  | zero => cases hrun
  | succ n ih =>
      simp only [program_succ, Bind.bind, EStateM.bind] at hrun
      split at hrun
      · cases hrun
        exact ⟨Sound.soundAll_nil, fun _ _ => rfl⟩
      · next hend =>
        simp only [EStateM.bind, EStateM.adaptExcept] at hrun
        cases hs : Grammar.statement n ⟨ts, drawn⟩ with
        | error e c' => simp [hs] at hrun
        | ok s c₁ =>
            cases hp : program n c₁ with
            | error e c' => simp [hs, hp] at hrun
            | ok more c₂ =>
                simp only [hs, hp] at hrun
                cases hrun
                have hread := (sound n).statement h drawn s c₁ hs
                obtain ⟨hmore, hprecedes⟩ := ih hread.legible hp
                exact ⟨Sound.soundAll_cons hread.sound hmore (hprecedes s hread.ends),
                  fun prev hprev => Sound.precedes_cons hprev hend hread⟩

end Grammar

/-- What is parsed from tokens as the lexer makes them is well formed, and its names are names. -/
theorem parse_sound {tokens : List Token} (h : LegibleAll tokens) {drawn : Nat} {p : Program}
    (hparse : (parse tokens drawn).result = .ok p) : Stmt.SoundAll p.statements := by
  unfold parse at hparse
  split at hparse
  · next p' c hrun =>
    cases hparse
    exact (Grammar.program_sound h hrun).1
  · cases hparse

end Kiln
