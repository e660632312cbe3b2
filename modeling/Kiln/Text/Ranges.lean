/-
Module: Kiln.Text.Ranges
Purpose: Sets of characters given as ascending lists of code point ranges, and membership in them.
  The character properties of the neighbouring modules are such lists.
Main exports: Ranges, Ranges.contains, Ranges.Ascending, Ranges.contains_iff
-/

namespace Kiln.Text

/-- A set of code points: inclusive ranges, the lower ones first. -/
abbrev Ranges := List (Nat × Nat)

namespace Ranges

/-- Whether `n` lies in one of the ranges. The search ends at the first range that starts above `n`,
    because the ranges ascend. -/
def contains : Ranges → Nat → Bool
  | [], _ => false
  | (lo, hi) :: rest, n => if n < lo then false else n ≤ hi || contains rest n

/-- Every range starts at or above `floor`, ends no lower than it starts, and lies wholly below the
    next one. -/
def AscendingFrom (floor : Nat) : Ranges → Prop
  | [] => True
  | (lo, hi) :: rest => floor ≤ lo ∧ lo ≤ hi ∧ AscendingFrom (hi + 1) rest

/-- The ranges are nonempty, disjoint and in ascending order. -/
def Ascending (ranges : Ranges) : Prop := AscendingFrom 0 ranges

instance : ∀ (floor : Nat) (ranges : Ranges), Decidable (AscendingFrom floor ranges)
  | _, [] => isTrue trivial
  | floor, (lo, hi) :: rest =>
    have := instDecidableAscendingFrom (hi + 1) rest
    inferInstanceAs (Decidable (floor ≤ lo ∧ lo ≤ hi ∧ AscendingFrom (hi + 1) rest))

instance (ranges : Ranges) : Decidable ranges.Ascending :=
  inferInstanceAs (Decidable (AscendingFrom 0 ranges))

theorem AscendingFrom.le_lo {floor : Nat} {ranges : Ranges} (h : AscendingFrom floor ranges) :
    ∀ r ∈ ranges, floor ≤ r.1 := by
  induction ranges generalizing floor with
  | nil => simp
  | cons r rest ih =>
      obtain ⟨hfloor, hspan, hrest⟩ := h
      intro q hq
      rcases List.mem_cons.mp hq with rfl | hq
      · exact hfloor
      · have := ih hrest q hq
        omega

/-- On ascending ranges the search that stops early finds exactly the members. -/
theorem contains_iff_of_ascendingFrom {floor n : Nat} {ranges : Ranges}
    (h : AscendingFrom floor ranges) :
    ranges.contains n = true ↔ ∃ r ∈ ranges, r.1 ≤ n ∧ n ≤ r.2 := by
  induction ranges generalizing floor with
  | nil => simp [contains]
  | cons r rest ih =>
      obtain ⟨hfloor, hspan, hrest⟩ := h
      have hlo := hrest.le_lo
      unfold contains
      split
      · -- below the first range, hence below all of them
        constructor
        · simp
        · rintro ⟨q, hq, hle, -⟩
          rcases List.mem_cons.mp hq with rfl | hq
          · omega
          · have := hlo q hq
            omega
      · simp only [Bool.or_eq_true, decide_eq_true_eq, ih hrest, List.mem_cons, exists_eq_or_imp]
        constructor
        · rintro (hn | hn)
          · exact .inl ⟨by omega, hn⟩
          · exact .inr hn
        · rintro (hn | hn)
          · exact .inl hn.2
          · exact .inr hn

/-- A number lies in ascending ranges exactly if it lies in one of them. -/
theorem contains_iff {n : Nat} {ranges : Ranges} (h : ranges.Ascending) :
    ranges.contains n = true ↔ ∃ r ∈ ranges, r.1 ≤ n ∧ n ≤ r.2 :=
  contains_iff_of_ascendingFrom h

end Ranges

end Kiln.Text
