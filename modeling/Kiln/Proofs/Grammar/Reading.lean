/-
Module: Kiln.Proofs.Grammar.Reading
Purpose: Reading printed expressions. The rules of the grammar stand in a circle: each level reads what the
  next tighter one reads and then goes on with its own operators, and the tightest one reads the loosest
  between parentheses. So an expression that is read where its own operator belongs is read everywhere,
  printed for that place. Chains of operators, and of calls and member accesses, are read from the left,
  while the tree has its last operator on top: what reads them is stated for whatever comes after.
Main exports: Expr.Like, Expr.ReadsAt, Expr.Reads, Expr.Reads.of_own_rank, Expr.Reads.expression
-/
import Kiln.Proofs.Grammar.LookAhead
import Kiln.Proofs.Grammar.Triples
import Kiln.Proofs.Number.Numerals
import Mathlib.Logic.Basic

namespace Kiln

open Kiln.Parser Kiln.Grammar

variable {rest : List Token}

/-! ### Types and parameters -/

theorem optionalType_yields (type : Option String) (h : (front rest).kind ≠ .identifier) :
    Yields optionalType (typeTokens type ++ rest) rest (· = type) := by
  refine .peek ?_
  cases type with
  | none =>
      rw [typeTokens, List.nil_append, if_neg h]
      exact .pure rfl
  | some type => exact .take (.pure rfl)

theorem Param.yields (p : Param) (hname : (front rest).kind ≠ .identifier)
    (hcolon : (front rest).kind ≠ .colon) : Yields parameter (p.tokens ++ rest) rest (· = p) := by
  refine .expect rfl (.accept_false ?_ ((optionalType_yields p.type hname).map ?_))
  · cases p.type with
    | none => exact hcolon
    | some type => exact nofun
  · rintro type rfl
    rfl

theorem Param.length_le (ps : List Param) : ps.length ≤ (Param.tokensOfAll ps).length := by
  have hmore (qs : List Param) : qs.length ≤ (Param.tokensOfMore qs).length := by
    induction qs with
    | nil => exact Nat.le_refl _
    | cons q rest ih =>
        simp only [Param.tokensOfMore, List.cons_append, List.length_cons, List.length_append]
        omega
  cases ps with
  | nil => exact Nat.le_refl _
  | cons p rest =>
      have := hmore rest
      simp only [Param.tokensOfAll, Param.tokens, List.cons_append, List.length_cons,
        List.length_append]
      omega

theorem Param.yieldsAll (ps : List Param) {n : Nat} (hn : ps.length < n) :
    Yields (parametersFrom n) (Param.tokensOfAll ps ++ .closeParen :: rest) rest (· = ps) := by
  induction ps generalizing n with
  | nil =>
      obtain ⟨n, rfl⟩ := Nat.exists_eq_succ_of_ne_zero (Nat.ne_of_gt hn)
      rw [parametersFrom]
      exact .accept_true rfl (.pure rfl)
  | cons p more ih =>
      obtain ⟨n, rfl⟩ := Nat.exists_eq_succ_of_ne_zero (Nat.ne_of_gt (Nat.zero_lt_of_lt hn))
      have hrest := (ih (Nat.lt_of_succ_lt_succ hn)).map (Q := (· = p :: more))
        fun qs hqs => congrArg (p :: ·) hqs
      rw [parametersFrom, Param.tokensOfAll, List.append_assoc]
      refine .accept_false nofun ?_
      cases more with
      | nil =>
          refine .bind (p.yields nofun nofun) ?_
          rintro _ rfl
          exact .accept_false nofun (.peek hrest)
      | cons q more =>
          refine .bind (p.yields nofun nofun) ?_
          rintro _ rfl
          rw [Param.tokensOfAll, List.append_assoc] at hrest
          rw [Param.tokensOfMore, List.cons_append, List.cons_append, List.append_assoc]
          exact .accept_true rfl (.peek hrest)

theorem parameters_yields (params : List Param) (returnType : Option String) {n : Nat}
    (hn : (headTokens params returnType).length ≤ n) :
    Yields (parameters n) (headTokens params returnType ++ rest) (typeTokens returnType ++ rest)
      (· = params) := by
  have hlength := Param.length_le params
  rw [headTokens, List.cons_append, List.length_cons, List.length_append] at hn
  rw [headTokens, List.append_assoc]
  exact .expect rfl (Param.yieldsAll params (by omega))

/-! ### What is read at each level -/

/-- The other expression is the same one up to ids. -/
def Expr.Like (e other : Expr) : Prop := other.skeleton = e.skeleton

/-- The expressions are the same ones up to ids. -/
def Expr.LikeAll (es others : List Expr) : Prop :=
  Expr.skeletonOfAll others = Expr.skeletonOfAll es

namespace Expr

variable {e : Expr}

/-- The expression is read where only literals, names, unnamed functions and parentheses are. -/
def ReadsPrimary (e : Expr) : Prop :=
  ∀ n rest, 16 * (e.printed 8).length ≤ n + 10 → isArrowNext rest = false →
    Yields (primary n) (e.printed 8 ++ rest) rest e.Like

/-- The expression is read where calls and member accesses are, and what comes after it goes on with a copy
    of it. -/
def ReadsSelection (e : Expr) : Prop :=
  ∀ n rest after P, 16 * (e.printed 7).length ≤ n + 9 → isArrowNext rest = false →
    (∀ m copy, e.Like copy → n ≤ m + (e.printed 7).length + 1 →
      Yields (selections m copy) rest after P) →
    Yields (Grammar.unary n) (e.printed 7 ++ rest) after P

/-- The expression is read where unary operators are. -/
def ReadsUnary (e : Expr) : Prop :=
  ∀ n rest, 16 * (e.printed 6).length ≤ n + 9 → Stops 6 rest →
    Yields (Grammar.unary n) (e.printed 6 ++ rest) rest e.Like

/-- The expression is read as the first operand on a level, and what comes after it goes on with a copy of
    it. -/
def ReadsFirst (e : Expr) (level : Level) : Prop :=
  ∀ n rest after P, 16 * (e.printed level.rank).length ≤ n + 2 + level.rank →
    Stops (level.rank + 1) rest →
    (∀ m copy, e.Like copy → n ≤ m + (e.printed level.rank).length + 1 →
      Yields (chain m level (Level.all.drop (level.rank + 1)) copy) rest after P) →
    Yields (operands n (Level.all.drop level.rank)) (e.printed level.rank ++ rest) after P

/-- The expression is read where all operators are that bind at least as tightly as `rank`. -/
def ReadsOperand (e : Expr) (rank : Nat) : Prop :=
  ∀ n rest, 16 * (e.printed rank).length ≤ n + 2 + rank → Stops rank rest →
    Yields (operands n (Level.all.drop rank)) (e.printed rank ++ rest) rest e.Like

/-- The expression is read in places that ask for operators of this rank. -/
def ReadsAt (e : Expr) : Nat → Prop
  | 8 => e.ReadsPrimary
  | 7 => e.ReadsSelection
  | 6 => e.ReadsUnary
  | rank => ∀ level : Level, level.rank = rank → e.ReadsFirst level

/-- The expression is read in every place. -/
def Reads (e : Expr) : Prop := ∀ rank ≤ 8, e.ReadsAt rank

/-! ### From each level to the next looser one -/

theorem printed_succ {rank : Nat} (h : e.rank ≠ rank) : e.printed (rank + 1) = e.printed rank := by
  have hiff : e.rank < rank + 1 ↔ e.rank < rank := by omega
  simp only [Expr.printed, hiff]

theorem printed_zero (e : Expr) : e.printed 0 = e.bare := by
  simp [Expr.printed, parenthesized]

theorem rank_le (e : Expr) : e.rank ≤ 8 := by
  cases e with
  | binary op left right => exact Nat.le_of_lt (Nat.lt_trans op.rank_lt (by decide))
  | logical op left right => exact Nat.le_of_lt (Nat.lt_trans op.rank_lt (by decide))
  | _ => exact Nat.le_of_ble_eq_true rfl

/-- No unary operator stands before a literal, a name, an unnamed function or a parenthesis. -/
theorem ofToken?_front_printed (e : Expr) (rest : List Token) :
    UnaryOp.ofToken? (front (e.printed 8 ++ rest)) = none := by
  by_cases hrank : e.rank < 8
  · rw [Expr.printed, decide_eq_true hrank]
    rfl
  · rw [Expr.printed, decide_eq_false hrank, parenthesized, if_neg Bool.false_ne_true]
    cases e with
    | binary op left right => exact absurd (Nat.lt_trans op.rank_lt (by decide)) hrank
    | logical op left right => exact absurd (Nat.lt_trans op.rank_lt (by decide)) hrank
    | unary op operand => exact absurd (Nat.le_of_ble_eq_true rfl) hrank
    | member object property => exact absurd (Nat.le_of_ble_eq_true rfl) hrank
    | call callee args => exact absurd (Nat.le_of_ble_eq_true rfl) hrank
    | bool value => cases value <;> rfl
    | _ => rfl

/-- Calls and member accesses end before what ends an expression. -/
theorem selections_stop {m rank : Nat} (hm : 0 < m) (h : Stops rank rest) {copy : Expr}
    (hcopy : e.Like copy) : Yields (selections m copy) rest rest e.Like := by
  obtain ⟨m, rfl⟩ := Nat.exists_eq_succ_of_ne_zero (Nat.ne_of_gt hm)
  rw [selections]
  refine .peek ?_
  split
  · next hdot => exact absurd hdot h.dot
  · next hparen => exact absurd hparen h.paren
  · exact .pure hcopy

/-- A chain of operators ends before what ends an expression of its level. -/
theorem chain_stop {m : Nat} {level : Level} {tighter : List Level} (hm : 0 < m)
    (h : Stops level.rank rest) {copy : Expr} (hcopy : e.Like copy) :
    Yields (chain m level tighter copy) rest rest e.Like := by
  obtain ⟨m, rfl⟩ := Nat.exists_eq_succ_of_ne_zero (Nat.ne_of_gt hm)
  rw [chain]
  refine .peek ?_
  have hnone : level.connective? (front rest) = none := by
    rw [Level.connective?, Option.filter_eq_none_iff]
    intro c hc hlevel
    have hlt := h.operator c hc
    rw [of_decide_eq_true hlevel] at hlt
    exact Nat.lt_irrefl _ hlt
  rw [hnone]
  exact .pure hcopy

theorem ReadsPrimary.selection (h : e.ReadsPrimary) (hrank : e.rank ≠ 7) : e.ReadsSelection := by
  intro n rest after P hn harrow hnext
  have hprinted : e.printed 8 = e.printed 7 := printed_succ hrank
  rw [← hprinted] at hn hnext ⊢
  have hpos := e.length_printed_pos 8
  obtain ⟨n, rfl⟩ : ∃ m, n = m + 1 := ⟨n - 1, by omega⟩
  rw [Grammar.unary]
  refine .peek ?_
  rw [ofToken?_front_printed]
  exact .bind (h n rest (by omega) harrow) fun copy hcopy => hnext n copy hcopy (by omega)

theorem ReadsSelection.unary (h : e.ReadsSelection) (hrank : e.rank ≠ 6) : e.ReadsUnary := by
  intro n rest hn hstops
  have hprinted : e.printed 7 = e.printed 6 := printed_succ hrank
  rw [← hprinted] at hn ⊢
  have hpos := e.length_printed_pos 7
  exact h n rest rest e.Like hn hstops.arrow fun m copy hcopy hm =>
    selections_stop (by omega) hstops hcopy

theorem ReadsUnary.operand (h : e.ReadsUnary) : e.ReadsOperand 6 := by
  intro n rest hn hstops
  have hpos := e.length_printed_pos 6
  obtain ⟨n, rfl⟩ : ∃ m, n = m + 1 := ⟨n - 1, by omega⟩
  exact h n rest (by omega) hstops

theorem ReadsOperand.first {level : Level} (h : e.ReadsOperand (level.rank + 1))
    (hrank : e.rank ≠ level.rank) : e.ReadsFirst level := by
  intro n rest after P hn hstops hnext
  rw [← printed_succ hrank] at hn hnext ⊢
  have hpos := e.length_printed_pos (level.rank + 1)
  have hlevel := Level.rank_lt level
  obtain ⟨n, rfl⟩ : ∃ m, n = m + 1 := ⟨n - 1, by omega⟩
  rw [Level.drop_rank, operands]
  exact .bind (h n rest (by omega) hstops) fun copy hcopy => hnext n copy hcopy (by omega)

theorem ReadsFirst.operand {level : Level} (h : e.ReadsFirst level) :
    e.ReadsOperand level.rank := by
  intro n rest hn hstops
  have hpos := e.length_printed_pos level.rank
  have hlevel := Level.rank_lt level
  exact h n rest rest e.Like hn (hstops.mono (Nat.le_succ _)) fun m copy hcopy hm =>
    chain_stop (by omega) hstops hcopy

theorem ReadsOperand.expression (h : e.ReadsOperand 0) {n : Nat}
    (hn : 16 * e.bare.length ≤ n + 1) (hstops : Stops 0 rest) :
    Yields (Grammar.expression n) (e.bare ++ rest) rest e.Like := by
  have hpos := e.length_printed_pos 0
  rw [printed_zero] at hpos
  obtain ⟨n, rfl⟩ : ∃ m, n = m + 1 := ⟨n - 1, by omega⟩
  have := h n rest
  rw [printed_zero] at this
  exact this (by omega) hstops

/-- The search for an arrow passes over what stands between parentheses. -/
theorem isArrowAhead_parenthesis (e : Expr) (rest : List Token) :
    isArrowAhead (.openParen :: e.bare ++ .closeParen :: rest) = isArrowNext rest :=
  e.balanced 0 (.closeParen :: rest)

theorem ReadsOperand.primary (h : e.ReadsOperand 0) (hrank : e.rank < 8) : e.ReadsPrimary := by
  intro n rest hn harrow
  have hprinted : e.printed 8 = .openParen :: e.bare ++ [.closeParen] := by
    rw [Expr.printed, decide_eq_true hrank]
    rfl
  rw [hprinted, List.cons_append, List.length_cons, List.length_append] at hn
  obtain ⟨n, rfl⟩ : ∃ m, n = m + 1 := ⟨n - 1, by omega⟩
  rw [hprinted, List.append_assoc, Grammar.primary]
  refine .peek (.atFunction ?_)
  rw [List.singleton_append, isArrowAhead_parenthesis, harrow]
  refine .skip (.bind (h.expression (by omega) (.of_closes rfl 0)) fun copy hcopy => ?_)
  exact .expect rfl (.pure hcopy)

/-! ### Around the circle -/

theorem ReadsAt.operand {rank : Nat} (h : e.ReadsAt rank) (hrank : rank ≤ 6) :
    e.ReadsOperand rank := by
  by_cases hunary : rank = 6
  · subst hunary
    exact ReadsUnary.operand h
  · obtain ⟨level, rfl⟩ := Level.exists_rank_eq (Nat.lt_of_le_of_ne hrank hunary)
    refine ReadsFirst.operand ?_
    cases level <;> exact h _ rfl

theorem ReadsFirst.readsAt {level : Level} (h : e.ReadsFirst level) : e.ReadsAt level.rank := by
  cases level <;> (rintro other hother; cases other <;> first | exact h | cases hother)

/-- What is read in a place is read in the next looser one, unless its own operator belongs there. -/
theorem ReadsAt.looser {rank : Nat} (h : e.ReadsAt (rank + 1)) (hle : rank < 8)
    (hrank : e.rank ≠ rank) : e.ReadsAt rank := by
  by_cases hprimary : rank = 7
  · subst hprimary
    exact ReadsPrimary.selection h hrank
  by_cases hselection : rank = 6
  · subst hselection
    exact ReadsSelection.unary h hrank
  have hbinary : rank < 6 := by omega
  obtain ⟨level, rfl⟩ := Level.exists_rank_eq hbinary
  exact ((h.operand (Level.rank_lt level)).first hrank).readsAt

theorem ReadsAt.descend {low high : Nat} (hle : low ≤ high) (h : e.ReadsAt high) (hhigh : high ≤ 8)
    (hrank : ∀ rank, low ≤ rank → rank < high → e.rank ≠ rank) : e.ReadsAt low := by
  induction hle with
  | refl => exact h
  | step hlow ih =>
      exact ih (h.looser hhigh (hrank _ hlow (Nat.lt_succ_self _))) (Nat.le_of_lt hhigh)
        fun rank hle hlt => hrank rank hle (Nat.lt_succ_of_lt hlt)

/-- What is read where its own operator belongs is read everywhere: down from there to the loosest level,
    between parentheses at the tightest one, and down from there again. -/
theorem ReadsAt.reads (h : e.ReadsAt e.rank) : e.Reads := by
  intro rank hrank
  by_cases hlow : rank ≤ e.rank
  · exact h.descend hlow e.rank_le fun k _ hk => Nat.ne_of_gt hk
  · have hloosest : e.ReadsAt 0 := h.descend (Nat.zero_le _) e.rank_le fun k _ hk => Nat.ne_of_gt hk
    have htightest : e.ReadsAt 8 := (hloosest.operand (by decide)).primary (by omega)
    exact htightest.descend hrank (Nat.le_refl _) fun k hk _ => by omega

theorem Reads.operand (h : e.Reads) {rank : Nat} (hrank : rank ≤ 6) : e.ReadsOperand rank :=
  (h rank (Nat.le_trans hrank (by decide))).operand hrank

theorem Reads.first (h : e.Reads) (level : Level) : e.ReadsFirst level := by
  have := h level.rank (Nat.le_of_lt (Nat.lt_trans (Level.rank_lt level) (by decide)))
  cases level <;> exact this _ rfl

theorem Reads.expression (h : e.Reads) {n : Nat} (hn : 16 * e.bare.length ≤ n + 1)
    (hstops : Stops 0 rest) : Yields (Grammar.expression n) (e.bare ++ rest) rest e.Like :=
  (h.operand (Nat.zero_le _)).expression hn hstops

/-! ### Each form of expression where its operator belongs -/

theorem Level.connective?_token (c : Connective) : c.level.connective? c.token = some c := by
  rw [Level.connective?, Connective.ofToken?_token, Option.filter_some, if_pos (decide_eq_true rfl)]

theorem Like.join (c : Connective) {left right left' right' : Expr} (hl : left.Like left')
    (hr : right.Like right') : (c.join left right).Like (c.join left' right') := by
  have hl : left'.skeleton = left.skeleton := hl
  have hr : right'.skeleton = right.skeleton := hr
  cases c with
  | binary op => simp only [Like, Connective.join, Expr.skeleton, hl, hr]
  | logical op => simp only [Like, Connective.join, Expr.skeleton, hl, hr]

/-- Two operands and the operator between them. -/
theorem readsFirst_join (c : Connective) {left right : Expr} (hleft : left.Reads) (hright : right.Reads) :
    (c.join left right).ReadsFirst c.level := by
  intro n rest after P hn hstops hnext
  have hprinted : (c.join left right).printed c.level.rank
      = left.printed c.level.rank ++ c.token :: right.printed (c.level.rank + 1) := by
    rw [Expr.printed, Connective.rank_join, Connective.rank_level, decide_eq_false (Nat.lt_irrefl _),
      parenthesized, if_neg Bool.false_ne_true, Connective.bare_join]
  have hlength : ((c.join left right).printed c.level.rank).length
      = (left.printed c.level.rank).length + (right.printed (c.level.rank + 1)).length + 1 := by
    rw [hprinted, List.length_append, List.length_cons, Nat.add_assoc]
  have hlevel := Level.rank_lt c.level
  have htighter : right.ReadsOperand (c.level.rank + 1) := hright.operand hlevel
  rw [hlength] at hn hnext
  rw [hprinted, List.append_assoc]
  refine hleft.first c.level n _ after P (by omega) (.of_connective c _) fun m left' hleft' hm => ?_
  obtain ⟨m, rfl⟩ : ∃ k, m = k + 1 := ⟨m - 1, by omega⟩
  rw [chain]
  refine .peek ?_
  rw [List.cons_append, front_cons, Level.connective?_token]
  refine .skip (.bind (htighter m rest (by omega) hstops) ?_)
  exact fun right' hright' => hnext m _ (.join c hleft' hright') (by omega)

theorem Reads.join (c : Connective) {left right : Expr} (hleft : left.Reads) (hright : right.Reads) :
    (c.join left right).Reads := by
  have hat : (c.join left right).ReadsAt c.level.rank := (readsFirst_join c hleft hright).readsAt
  rw [c.rank_level, ← c.rank_join left right] at hat
  exact hat.reads

/-- An operator before its operand. -/
theorem Reads.sign (op : UnaryOp) (h : e.Reads) : (Expr.unary op e).ReadsUnary := by
  intro n rest hn hstops
  have hprinted : (Expr.unary op e).printed 6 = op.token :: e.printed 6 := rfl
  rw [hprinted, List.length_cons] at hn
  obtain ⟨n, rfl⟩ : ∃ m, n = m + 1 := ⟨n - 1, by omega⟩
  rw [hprinted, Grammar.unary]
  refine .peek ?_
  have hop : UnaryOp.ofToken? op.token = some op := by cases op <;> rfl
  rw [List.cons_append, front_cons, hop]
  refine .skip (.map (h 6 (by decide) n rest (by omega) hstops) fun copy hcopy => ?_)
  exact congrArg (Expr.unary op) hcopy

/-- A member access. -/
theorem Reads.select (property : String) (h : e.Reads) : (Expr.member e property).ReadsSelection := by
  intro n rest after P hn harrow hnext
  have hprinted : (Expr.member e property).printed 7 = e.printed 7 ++ [.dot, .name property] := rfl
  have hlength : ((Expr.member e property).printed 7).length = (e.printed 7).length + 2 := by
    rw [hprinted, List.length_append]
    rfl
  rw [hlength] at hn hnext
  rw [hprinted, List.append_assoc]
  refine h 7 (by decide) n _ after P (by omega) rfl fun m copy hcopy hm => ?_
  obtain ⟨m, rfl⟩ : ∃ k, m = k + 1 := ⟨m - 1, by omega⟩
  rw [selections]
  refine .peek (.skip (.expect rfl (hnext m _ ?_ (by omega))))
  exact congrArg (Expr.member · property) hcopy

theorem stops_moreArgs (es : List Expr) :
    Stops 0 (Expr.printMoreArgs es ++ .closeParen :: rest) := by
  cases es with
  | nil => exact .of_closes rfl 0
  | cons e more => exact .of_closes rfl 0

theorem yields_moreArguments (es : List Expr) (h : ∀ e ∈ es, e.Reads) {n : Nat}
    (hn : 16 * (Expr.printMoreArgs es).length < n) :
    Yields (moreArguments n) (Expr.printMoreArgs es ++ .closeParen :: rest) rest
      (Expr.LikeAll es) := by
  induction es generalizing n with
  | nil =>
      obtain ⟨n, rfl⟩ : ∃ k, n = k + 1 := ⟨n - 1, by omega⟩
      exact .accept_false nofun (.expect rfl (.pure rfl))
  | cons e more ih =>
      obtain ⟨n, rfl⟩ : ∃ k, n = k + 1 := ⟨n - 1, by omega⟩
      rw [Expr.printMoreArgs, List.cons_append, List.length_cons, List.length_append] at hn
      rw [Expr.printMoreArgs, List.cons_append, List.cons_append, List.append_assoc, moreArguments]
      refine .accept_true rfl (.bind
        ((h e List.mem_cons_self).expression (by omega) (stops_moreArgs more)) fun e' he' => ?_)
      refine .map (ih (fun e he => h e (List.mem_cons_of_mem _ he)) (by omega)) fun es' hes' => ?_
      exact congrArg₂ (· :: ·) he' hes'

theorem yields_arguments (es : List Expr) (h : ∀ e ∈ es, e.Reads) {n : Nat}
    (hn : 16 * (Expr.printArgs es).length < n) :
    Yields (arguments n) (Expr.printArgs es ++ .closeParen :: rest) rest (Expr.LikeAll es) := by
  obtain ⟨n, rfl⟩ : ∃ k, n = k + 1 := ⟨n - 1, by omega⟩
  rw [arguments]
  cases es with
  | nil => exact .accept_true rfl (.pure rfl)
  | cons e more =>
      obtain ⟨t, ts, hts, ht⟩ := e.exists_bare_eq_cons
      have hlength : 0 < e.bare.length := by
        rw [hts]
        exact Nat.succ_pos _
      have hopen : (front (e.bare ++ (Expr.printMoreArgs more ++ .closeParen :: rest))).kind
          ≠ .closeParen := by
        rw [hts]
        rintro hkind
        rw [List.cons_append, front_cons] at hkind
        rw [Token.opensExpr, hkind] at ht
        cases ht
      rw [Expr.printArgs, List.length_append] at hn
      rw [Expr.printArgs, List.append_assoc]
      refine .accept_false hopen (.bind
        ((h e List.mem_cons_self).expression (by omega) (stops_moreArgs more)) fun e' he' => ?_)
      refine .map (yields_moreArguments more (fun e he => h e (List.mem_cons_of_mem _ he))
        (by omega)) fun es' hes' => ?_
      exact congrArg₂ (· :: ·) he' hes'

/-- A call. -/
theorem Reads.apply {args : List Expr} (h : e.Reads) (hargs : ∀ a ∈ args, a.Reads) :
    (Expr.call e args).ReadsSelection := by
  intro n rest after P hn harrow hnext
  have hprinted : (Expr.call e args).printed 7
      = e.printed 7 ++ .openParen :: (Expr.printArgs args ++ [.closeParen]) :=
    List.append_assoc _ _ _
  have hlength : ((Expr.call e args).printed 7).length
      = (e.printed 7).length + (Expr.printArgs args).length + 2 := by
    rw [hprinted, List.length_append, List.length_cons, List.length_append, List.length_singleton]
    omega
  rw [hlength] at hn hnext
  rw [hprinted, List.append_assoc]
  refine h 7 (by decide) n _ after P (by omega) rfl fun m copy hcopy hm => ?_
  obtain ⟨m, rfl⟩ : ∃ k, m = k + 1 := ⟨m - 1, by omega⟩
  rw [selections, List.cons_append, List.append_assoc]
  refine .peek (.skip (.bind (yields_arguments args hargs (by omega)) fun args' hargs' => ?_))
  exact hnext m _ (congrArg₂ Expr.call hcopy hargs') (by omega)

/-- An expression of one token. -/
theorem reads_of_single {t : Token} (hrank : e.rank = 8) (hbare : e.bare = [t])
    (h : ∀ n rest, Yields (Grammar.primary (n + 1)) (t :: rest) rest e.Like) : e.Reads := by
  refine ReadsAt.reads ?_
  rw [hrank]
  intro n rest hn _
  have hprinted : e.printed 8 = [t] := by
    rw [Expr.printed, hrank, hbare]
    rfl
  rw [hprinted, List.length_singleton] at hn
  obtain ⟨n, rfl⟩ : ∃ m, n = m + 1 := ⟨n - 1, by omega⟩
  rw [hprinted]
  exact h n rest

theorem reads_number {value : Int64} (h : 0 ≤ value) : (Expr.number value).Reads := by
  refine reads_of_single rfl rfl fun n rest => ?_
  rw [Grammar.primary]
  refine .peek (.skip ?_)
  rw [front_cons, Token.printed, Decimal.read?_write h]
  exact .pure rfl

theorem reads_text (value : String) : (Expr.text value).Reads :=
  reads_of_single rfl rfl fun _ _ => .peek (.skip (.pure rfl))

theorem reads_bool (value : Bool) : (Expr.bool value).Reads := by
  cases value with
  | true => exact reads_of_single rfl rfl fun _ _ => .peek (.skip (.pure rfl))
  | false => exact reads_of_single rfl rfl fun _ _ => .peek (.skip (.pure rfl))

theorem reads_var (name : String) (id : NodeId) : (Expr.var name id).Reads :=
  reads_of_single rfl rfl fun _ _ => .peek (.skip (.freshId fun _ => .pure rfl))

theorem reads_this (id : NodeId) : (Expr.this id).Reads :=
  reads_of_single rfl rfl fun _ _ => .peek (.skip (.freshId fun _ => .pure rfl))

end Expr

end Kiln
