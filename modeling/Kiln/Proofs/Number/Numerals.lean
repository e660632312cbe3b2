/-
Module: Kiln.Proofs.Number.Numerals
Purpose: Numerals, the runs of digits that stand for numbers in programs. They have no sign, so what they
  write is never negative. A run of digits is read as the number that it writes, unless that is too large;
  so every number that is not negative is read back from its decimal form, also behind zeros.
Main exports: Decimal.write_eq_toDigits, Decimal.read?_of_isDigit, Decimal.read?_write,
  Decimal.nonneg_of_read?
-/
import Kiln.Number.Decimal
import Kiln.Text.Numeric
import Mathlib.Data.Int.ModEq

namespace Kiln.Decimal

open Kiln.Text

theorem digit?_of_isDigit {c : Char} (h : c.isDigit = true) : digit? c = some (c.toNat - '0'.toNat) := by
  have hrange : '0' ≤ c ∧ c ≤ '9' := by
    simpa [Char.isDigit, Char.le_def, UInt32.le_iff_toNat_le] using h
  rw [digit?, if_pos hrange]

/-- Digits write the number of which they are the decimal form. -/
theorem digitsFrom?_of_isDigit {text : List Char} (h : ∀ c ∈ text, c.isDigit = true) (acc : Nat) :
    digitsFrom? acc text = some (Nat.ofDigitChars 10 text acc) := by
  induction text generalizing acc with
  | nil => rfl
  | cons c rest ih =>
      rw [digitsFrom?, digit?_of_isDigit (h c List.mem_cons_self), Option.bind_some,
        ih fun d hd => h d (List.mem_cons_of_mem c hd), Nat.ofDigitChars_cons]

theorem write_eq_toDigits {n : Int64} (h : 0 ≤ n) :
    write n = String.ofList (Nat.toDigits 10 n.toInt.toNat) := by
  have hint : 0 ≤ n.toInt := Int64.le_iff_toInt_le.1 h
  rw [write, Int.toString_eq_repr, Int.repr_eq_if, if_pos hint, Nat.repr_eq_ofList_toDigits]

theorem isDigit_of_mem_write {n : Int64} (h : 0 ≤ n) : ∀ c ∈ (write n).toList, c.isDigit = true := by
  intro c hc
  rw [write_eq_toDigits h, String.toList_ofList] at hc
  exact Nat.isDigit_of_mem_toDigits (by decide) (by decide) hc

/-- Without a sign in front, a text is read as a run of digits. -/
theorem signed?_cons {c : Char} {rest : List Char} (hminus : c ≠ '-') (hplus : c ≠ '+') :
    signed? (c :: rest) = (digits? (c :: rest)).map fun n : Nat => (n : Int) := by
  unfold signed?
  split
  · next heq => exact absurd (List.cons.inj heq).1 hminus
  · next heq => exact absurd (List.cons.inj heq).1 hplus
  · cases digits? (c :: rest) <;> rfl

theorem fits_natCast (k : Nat) : fits k = decide (k < 2 ^ 63) := by
  rw [Bool.eq_iff_iff]
  simp only [fits, Bool.and_eq_true, decide_eq_true_eq]
  omega

/-- Digits are read as the number that they write, if it is not too large. -/
theorem read?_of_isDigit {text : String} (hne : text ≠ "")
    (h : ∀ c ∈ text.toList, c.isDigit = true) :
    read? text = if Nat.ofDigitChars 10 text.toList 0 < 2 ^ 63 then
      some (Int64.ofInt (Nat.ofDigitChars 10 text.toList 0 : Nat)) else none := by
  have hvalue := digitsFrom?_of_isDigit h 0
  rw [read?]
  cases htext : text.toList with
  | nil => exact absurd (String.toList_eq_nil_iff.1 htext) hne
  | cons c rest =>
      rw [htext] at h hvalue
      have hsign : ∀ d, d.isDigit = false → c ≠ d := by
        rintro d hd rfl
        rw [h c List.mem_cons_self] at hd
        cases hd
      have hread : digits? (c :: rest) = some (Nat.ofDigitChars 10 (c :: rest) 0) := hvalue
      rw [signed?_cons (hsign '-' (by decide)) (hsign '+' (by decide)), hread, Option.map_some,
        Option.filter_some, fits_natCast]
      simp only [decide_eq_true_eq]
      split <;> rfl

theorem write_ne_empty {n : Int64} (h : 0 ≤ n) : write n ≠ "" := by
  rw [write_eq_toDigits h, ne_eq, ← String.toList_eq_nil_iff, String.toList_ofList]
  exact Nat.toDigits_ne_nil

/-- The digits of a number that is not negative stand for it, also behind zeros. -/
theorem ofDigitChars_zeros_write {n : Int64} (h : 0 ≤ n) (zeros : Nat) :
    Nat.ofDigitChars 10 (List.replicate zeros '0' ++ (write n).toList) 0 = n.toInt.toNat := by
  rw [Nat.ofDigitChars_append, Nat.ofDigitChars_replicate_zero, Nat.mul_zero, write_eq_toDigits h,
    String.toList_ofList, Nat.ofDigitChars_ten_toDigits]

theorem toNat_lt (n : Int64) : n.toInt.toNat < 2 ^ 63 := by
  have hhigh := n.toInt_lt
  omega

/-- A number that is not negative is read back from its decimal form. -/
theorem read?_write {n : Int64} (h : 0 ≤ n) : read? (write n) = some n := by
  have hvalue := ofDigitChars_zeros_write h 0
  rw [List.replicate_zero, List.nil_append] at hvalue
  rw [read?_of_isDigit (write_ne_empty h) (isDigit_of_mem_write h), hvalue, if_pos (toNat_lt n),
    Int.toNat_of_nonneg (Int64.le_iff_toInt_le.1 h), Int64.ofInt_toInt]

theorem toInt_neg_eq {n : Int64} (hmin : n ≠ Int64.minValue) : (-n).toInt = -n.toInt := by
  have hlow := n.le_toInt
  have hhigh := n.toInt_lt
  have hne : n.toInt ≠ -2 ^ 63 := by
    rw [← Int64.toInt_minValue]
    exact fun heq => hmin (Int64.toInt_inj.1 heq)
  rw [Int64.toInt_neg]
  exact Int.bmod_eq_of_le (by omega) (by omega)

/-- The opposite of a negative number, if it has one. -/
theorem nonneg_neg {n : Int64} (h : ¬ 0 ≤ n) (hmin : n ≠ Int64.minValue) : 0 ≤ -n := by
  rw [Int64.le_iff_toInt_le, Int64.toInt_zero] at h ⊢
  rw [toInt_neg_eq hmin]
  omega

/-- A negative number is written as a minus sign before its opposite. -/
theorem write_eq_minus {n : Int64} (h : ¬ 0 ≤ n) (hmin : n ≠ Int64.minValue) :
    write n = "-" ++ write (-n) := by
  have hopposite := nonneg_neg h hmin
  rw [Int64.le_iff_toInt_le, Int64.toInt_zero] at h hopposite
  rw [write, write, Int.toString_eq_repr, Int.toString_eq_repr, Int.repr_eq_if, if_neg h,
    Int.repr_eq_if, if_pos hopposite, toInt_neg_eq hmin]

/-- What begins with a numeric character has no sign, so the number it writes is not negative. -/
theorem nonneg_of_read? {c : Char} {rest : List Char} (hnumeric : isNumeric c = true) {n : Int64}
    (h : read? (String.ofList (c :: rest)) = some n) : 0 ≤ n := by
  have hne : ∀ d, isNumeric d = false → c ≠ d := by
    rintro d hd rfl
    rw [hnumeric] at hd
    cases hd
  rw [read?, String.toList_ofList, signed?_cons (hne '-' (by decide)) (hne '+' (by decide))] at h
  obtain ⟨i, hi, rfl⟩ := Option.map_eq_some_iff.1 h
  obtain ⟨hvalue, hfits⟩ := Option.filter_eq_some_iff.1 hi
  obtain ⟨k, -, rfl⟩ := Option.map_eq_some_iff.1 hvalue
  simp only [fits, Bool.and_eq_true, decide_eq_true_eq] at hfits
  rw [Int64.le_iff_toInt_le, Int64.toInt_ofInt_of_le (by omega) (by omega)]
  exact Int.natCast_nonneg k

end Kiln.Decimal
