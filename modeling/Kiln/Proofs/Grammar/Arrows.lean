/-
Module: Kiln.Proofs.Grammar.Arrows
Purpose: The search for an arrow behind a parenthesis. It counts parentheses over any tokens, while the rules
  for an unnamed function read parameters, a return type and an arrow. Both end at the same closing
  parenthesis: between the parentheses of parameters there are no others. So the search answers yes wherever
  the head of an unnamed function can be read, and where it answers yes and the parameters can be read, the
  arrow is there. Its count begins at an opening parenthesis and does not fall below zero.
Main exports: Matched, ClosedBefore, ArrowStands, isArrowAhead_iff, isArrowAfter?, isArrowAfter?_eq,
  parameters_closed, functionHead_isArrowAhead
-/
import Kiln.Proofs.Grammar.LookAhead
import Kiln.Proofs.Grammar.Triples

namespace Kiln

open Kiln.Parser

/-! ### The closing parenthesis -/

/-- Tokens in which every parenthesis has its partner and the source does not end. -/
inductive Matched : List Token → Prop where
  | nil : Matched []
  | plain {t : Token} {rest : List Token} (kind : t.kind.isPlain = true) (tail : Matched rest) :
      Matched (t :: rest)
  | paren {opening closing : Token} {inner rest : List Token} (opens : opening.kind = .openParen)
      (body : Matched inner) (closes : closing.kind = .closeParen) (tail : Matched rest) :
      Matched (opening :: (inner ++ closing :: rest))

/-- The tokens begin with a parenthesis, and `after` is what follows the one that closes it. -/
def ClosedBefore (after tokens : List Token) : Prop :=
  ∃ opening inner closing, tokens = opening :: (inner ++ closing :: after) ∧
    opening.kind = .openParen ∧ Matched inner ∧ closing.kind = .closeParen

/-- An arrow stands here, or one name and then an arrow. -/
inductive ArrowStands : List Token → Prop where
  | atOnce {t : Token} {rest : List Token} (arrow : t.kind = .arrow) : ArrowStands (t :: rest)
  | afterType {t u : Token} {rest : List Token} (name : t.kind = .identifier) (arrow : u.kind = .arrow) :
      ArrowStands (t :: u :: rest)

theorem isArrowNext_iff {tokens : List Token} : isArrowNext tokens = true ↔ ArrowStands tokens := by
  constructor
  · intro h
    match tokens with
    | [] => cases h
    | [t] =>
        simp only [isArrowNext, Bool.and_false, Bool.or_false, beq_iff_eq] at h
        exact .atOnce h
    | t :: u :: rest =>
        simp only [isArrowNext, Bool.or_eq_true, Bool.and_eq_true, beq_iff_eq] at h
        rcases h with h | ⟨hname, harrow⟩
        · exact .atOnce h
        · exact .afterType hname harrow
  · rintro (harrow | ⟨hname, harrow⟩)
    · simp [isArrowNext, harrow]
    · simp [isArrowNext, hname, harrow]

section Steps

variable {t : Token} {rest : List Token}

theorem isArrowAfter_plain (h : t.kind.isPlain = true) (opened : Nat) :
    isArrowAfter opened (t :: rest) = isArrowAfter opened rest := by
  rw [isArrowAfter]
  cases hkind : t.kind <;> first | rfl | (rw [hkind] at h; cases h)

theorem isArrowAfter_open (h : t.kind = .openParen) (opened : Nat) :
    isArrowAfter opened (t :: rest) = isArrowAfter (opened + 1) rest := by
  simp only [isArrowAfter, h]

theorem isArrowAfter_close (h : t.kind = .closeParen) (opened : Nat) :
    isArrowAfter (opened + 2) (t :: rest) = isArrowAfter (opened + 1) rest := by
  simp [isArrowAfter, h]

theorem isArrowAfter_last (h : t.kind = .closeParen) : isArrowAfter 1 (t :: rest) = isArrowNext rest := by
  simp [isArrowAfter, h]

theorem isArrowAfter_end (h : t.kind = .endOfFile) (opened : Nat) :
    isArrowAfter opened (t :: rest) = false := by
  simp only [isArrowAfter, h]

end Steps

/-- The search passes over parentheses that have their partners. -/
theorem Matched.balanced {tokens : List Token} (h : Matched tokens) : Balanced tokens := by
  induction h with
  | nil => exact .nil
  | plain kind _ ih => exact .cons kind ih
  | paren opens _ closes _ ih ih' =>
      intro opened rest
      rw [List.cons_append, List.append_assoc, isArrowAfter_open opens, ih, List.cons_append,
        isArrowAfter_close closes, ih']

/-- What the search answers is what is to be seen behind the closing parenthesis. -/
theorem ClosedBefore.isArrowAhead_eq {after tokens : List Token} (h : ClosedBefore after tokens) :
    isArrowAhead tokens = isArrowNext after := by
  obtain ⟨opening, inner, closing, rfl, hopens, hinner, hcloses⟩ := h
  rw [isArrowAhead, isArrowAfter_open hopens, hinner.balanced, isArrowAfter_last hcloses]

/-- A search that succeeds has found the parenthesis that closes the last one of those that are open. -/
theorem exists_matched_of_isArrowAfter (tokens : List Token) (opened : Nat)
    (h : isArrowAfter (opened + 1) tokens = true) :
    ∃ inner closing after, tokens = inner ++ closing :: after ∧ Matched inner ∧
      closing.kind = .closeParen ∧ isArrowAfter (opened + 1) (closing :: after) = true := by
  match tokens with
  | [] => cases h
  | t :: rest =>
      by_cases hplain : t.kind.isPlain = true
      · rw [isArrowAfter_plain hplain] at h
        obtain ⟨inner, closing, after, rfl, hinner, hafter⟩ := exists_matched_of_isArrowAfter rest opened h
        exact ⟨t :: inner, closing, after, rfl, .plain hplain hinner, hafter⟩
      by_cases hopens : t.kind = .openParen
      · rw [isArrowAfter_open hopens] at h
        obtain ⟨inner, closing, after, rfl, hinner, hcloses, hafter⟩ :=
          exists_matched_of_isArrowAfter rest (opened + 1) h
        rw [isArrowAfter_close hcloses] at hafter
        obtain ⟨more, last, after, rfl, hmore, hlast⟩ := exists_matched_of_isArrowAfter after opened hafter
        exact ⟨t :: (inner ++ closing :: more), last, after, by simp,
          .paren hopens hinner hcloses hmore, hlast⟩
      by_cases hcloses : t.kind = .closeParen
      · exact ⟨[], t, rest, rfl, .nil, hcloses, h⟩
      · have hend : t.kind = .endOfFile := by
          cases hkind : t.kind <;> simp_all [TokenKind.isPlain]
        rw [isArrowAfter_end hend] at h
        cases h
termination_by tokens.length

/-- The search from a parenthesis succeeds exactly when the one that closes it comes before the end of the
    source, and an arrow stands behind it, at once or after one name. -/
theorem isArrowAhead_iff {tokens : List Token} (h : (front tokens).kind = .openParen) :
    isArrowAhead tokens = true ↔ ∃ after, ClosedBefore after tokens ∧ ArrowStands after := by
  constructor
  · intro hahead
    match tokens with
    | [] => cases h
    | t :: rest =>
        have hopens : t.kind = .openParen := h
        rw [isArrowAhead, isArrowAfter_open hopens] at hahead
        obtain ⟨inner, closing, after, rfl, hinner, hcloses, hafter⟩ :=
          exists_matched_of_isArrowAfter rest 0 hahead
        rw [isArrowAfter_last hcloses, isArrowNext_iff] at hafter
        exact ⟨after, ⟨t, inner, closing, rfl, hopens, hinner, hcloses⟩, hafter⟩
  · rintro ⟨after, hclosed, harrow⟩
    rw [hclosed.isArrowAhead_eq, isArrowNext_iff]
    exact harrow

/-! ### The count of open parentheses -/

/-- The same search with a count that cannot fall below zero: there is no answer where it would have to. -/
def isArrowAfter? (opened : Nat) : List Token → Option Bool
  | [] => some false
  | t :: rest =>
    match t.kind with
    | .openParen => isArrowAfter? (opened + 1) rest
    | .closeParen =>
      if opened = 0 then none
      else if opened = 1 then some (isArrowNext rest)
      else isArrowAfter? (opened - 1) rest
    | .endOfFile => some false
    | _ => isArrowAfter? opened rest

/-- Inside a parenthesis the count does not fall below zero: the search ends when it reaches zero. -/
theorem isArrowAfter?_succ (opened : Nat) (tokens : List Token) :
    isArrowAfter? (opened + 1) tokens = some (isArrowAfter (opened + 1) tokens) := by
  induction tokens generalizing opened with
  | nil => rfl
  | cons t rest ih =>
      rw [isArrowAfter?, isArrowAfter]
      cases t.kind with
      | closeParen =>
          cases opened with
          | zero => rfl
          | succ opened => exact ih opened
      | openParen => exact ih (opened + 1)
      | endOfFile => rfl
      | _ => exact ih opened

/-- From an opening parenthesis on, the count never falls below zero. -/
theorem isArrowAfter?_eq {tokens : List Token} (h : (front tokens).kind = .openParen) :
    isArrowAfter? 0 tokens = some (isArrowAhead tokens) := by
  cases tokens with
  | nil => cases h
  | cons t rest =>
      have hopens : t.kind = .openParen := h
      rw [isArrowAhead, isArrowAfter_open hopens, ← isArrowAfter?_succ, isArrowAfter?, hopens]

/-! ### Reading the parameters -/

/-- Tokens of the kinds `p` have been taken from the front of `before`, and `after` is left. -/
def Passed (p : TokenKind → Prop) (before after : List Token) : Prop :=
  ∃ taken, before = taken ++ after ∧ ∀ t ∈ taken, p t.kind

namespace Passed

variable {p : TokenKind → Prop} {before mid after : List Token}

theorem refl (tokens : List Token) : Passed p tokens tokens := ⟨[], rfl, nofun⟩

theorem cons {t : Token} (h : p t.kind) (h' : Passed p before after) : Passed p (t :: before) after := by
  obtain ⟨taken, rfl, hall⟩ := h'
  exact ⟨t :: taken, rfl, List.forall_mem_cons.2 ⟨h, hall⟩⟩

theorem trans (h : Passed p before mid) (h' : Passed p mid after) : Passed p before after := by
  obtain ⟨taken, rfl, hall⟩ := h
  induction taken with
  | nil => exact h'
  | cons t taken ih =>
      obtain ⟨ht, hrest⟩ := List.forall_mem_cons.1 hall
      exact .cons ht (ih hrest)

theorem suffix (h : Passed p before after) : after <:+ before := by
  obtain ⟨taken, rfl, -⟩ := h
  exact List.suffix_append taken after

end Passed

theorem matched_of_plain {tokens : List Token} (h : ∀ t ∈ tokens, t.kind.isPlain = true) : Matched tokens := by
  induction tokens with
  | nil => exact .nil
  | cons t rest ih =>
      obtain ⟨ht, hrest⟩ := List.forall_mem_cons.1 h
      exact .plain ht (ih hrest)

namespace Parser

variable {ts : List Token}

/-- A type is one name. If there is none, nothing is taken. -/
theorem optionalType_takes : Ensures optionalType ts fun _ after =>
    (∃ t, ts = t :: after ∧ t.kind = .identifier) ∨ (after = ts ∧ (front ts).kind ≠ .identifier) := by
  refine .peek ?_
  split
  · next hkind =>
    refine .take ?_
    rintro t rest rfl
    exact .pure (.inl ⟨t, rfl, hkind⟩)
  · next hkind => exact .pure (.inr ⟨rfl, hkind⟩)

/-- Behind a return type, if there is one, stands the arrow that is to be seen before it. -/
theorem optionalType_arrow : Ensures optionalType ts fun _ after =>
    (isArrowNext ts = true ↔ (front after).kind = .arrow) := by
  refine optionalType_takes.mono ?_
  rintro type after (⟨t, rfl, hkind⟩ | ⟨rfl, hkind⟩)
  · cases after with
    | nil => simp [isArrowNext, hkind, front, noMore]
    | cons u rest => simp [isArrowNext, hkind]
  · cases after with
    | nil => simp [isArrowNext, front, noMore]
    | cons u rest => simp_all [isArrowNext]

theorem parameter_takes : Ensures parameter ts fun _ after => Passed (·.isPlain = true) ts after := by
  have htype (ts : List Token) (name : Token) :
      Ensures (do return (⟨name.value, ← optionalType⟩ : Param)) ts
        fun _ after => Passed (·.isPlain = true) ts after := by
    refine .map optionalType_takes ?_
    rintro type after (⟨t, rfl, hkind⟩ | ⟨rfl, -⟩)
    · exact .cons (by rw [hkind]; rfl) (.refl _)
    · exact .refl _
  refine .expect ?_
  rintro name rest rfl hname
  have hplain : name.kind.isPlain = true := by rw [hname]; rfl
  refine .accept ?_ fun _ => (htype rest name).mono fun _ _ h => .cons hplain h
  rintro colon rest rfl hcolon
  have hplain' : colon.kind.isPlain = true := by rw [hcolon]; rfl
  exact (htype rest name).mono fun _ _ h => .cons hplain (.cons hplain' h)

/-- The parameters end with the first parenthesis that is met. -/
theorem parametersFrom_takes (n : Nat) : Ensures (parametersFrom n) ts fun _ after =>
    ∃ closing, Passed (·.isPlain = true) ts (closing :: after) ∧ closing.kind = .closeParen := by
  induction n generalizing ts with
  | zero => exact .throw
  | succ n ih =>
      have hmore (p : Param) {ts rest : List Token} (hbefore : Passed (·.isPlain = true) ts rest) :
          Ensures (do return p :: (← parametersFrom n)) rest fun _ after =>
            ∃ closing, Passed (·.isPlain = true) ts (closing :: after) ∧ closing.kind = .closeParen := by
        refine .map ih ?_
        rintro ps after ⟨closing, hplain, hcloses⟩
        exact ⟨closing, hbefore.trans hplain, hcloses⟩
      rw [parametersFrom]
      refine .accept ?_ fun _ => .bind parameter_takes fun p rest hp => ?_
      · rintro closing rest rfl hcloses
        exact .pure ⟨closing, .refl _, hcloses⟩
      refine .accept ?_ fun _ => .peek ?_
      · rintro comma rest rfl hcomma
        have hplain : comma.kind.isPlain = true := by rw [hcomma]; rfl
        refine .peek ?_
        split
        · exact .throw
        · exact hmore p (hp.trans (.cons hplain (.refl _)))
      · split
        · exact .throw
        · exact hmore p hp

/-- What follows parameters follows the parenthesis that closes the one before them. -/
theorem parameters_closed (n : Nat) :
    Ensures (parameters n) ts fun _ after => ClosedBefore after ts := by
  refine .expect ?_
  rintro opening rest rfl hopens
  refine (parametersFrom_takes n).mono ?_
  rintro ps after ⟨closing, ⟨inner, rfl, hinner⟩, hcloses⟩
  exact ⟨opening, inner, closing, rfl, hopens, matched_of_plain hinner, hcloses⟩

/-- Where parameters, a return type and an arrow can be read, the search for an arrow succeeds. -/
theorem functionHead_isArrowAhead (n : Nat) :
    Ensures (do
      let params ← parameters n
      let returnType ← optionalType
      let _ ← expect .arrow fun _ => .missingArrow
      return (params, returnType)) ts fun _ _ => isArrowAhead ts = true := by
  refine .bind (parameters_closed n) fun params rest hclosed => ?_
  refine .bind optionalType_arrow fun returnType after harrow => .expect ?_
  rintro arrow more rfl hkind
  exact .pure (hclosed.isArrowAhead_eq.trans (harrow.2 hkind))

end Parser

end Kiln
