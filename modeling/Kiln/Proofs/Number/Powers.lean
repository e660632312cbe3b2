/-
Module: Kiln.Proofs.Number.Powers
Purpose: Powers with an exponent that is not a natural number of 32 bits. All other arithmetic is exact modulo the
  64th power of two; these powers are clamped instead. A large exponent gives the exact power modulo the 64th power
  of two for four bases only, and for two of them only with the right parity. A negative exponent gives the exact
  power cut toward zero, unless the parity of the exponent is lost.
Main exports: Number.modEq_of_pow_modEq, Number.wraps_clampedPower_iff, Number.toInt_clampedPower_iff,
  Operators.pow_of_large_or_negative
-/
import Kiln.Proofs.Number.Doubles
import Mathlib.NumberTheory.Multiplicity

namespace Kiln

namespace Number

/-! ### Large powers modulo powers of two -/

section

variable {x y : Int} {e k : Nat}

theorem pow_modEq_zero_of_even (hx : Even x) (he : k ≤ e) : x ^ e ≡ 0 [ZMOD 2 ^ k] := by
  have hpow : (2 : Int) ^ e ∣ x ^ e := pow_dvd_pow_of_dvd hx.two_dvd e
  exact Int.modEq_zero_iff_dvd.2 ((pow_dvd_pow 2 he).trans hpow)

theorem pow_modEq_one_of_even (hx : Odd x) (he : Even e) : x ^ e ≡ 1 [ZMOD 8] := by
  obtain ⟨d, rfl⟩ := he
  rw [← two_mul, mul_comm, pow_mul]
  exact (Int.modEq_iff_dvd.2 (Int.eight_dvd_sq_sub_one_of_odd hx.pow)).symm

/-- Odd integers with the same odd power are the same, modulo a power of two. -/
theorem modEq_of_pow_modEq (hx : Odd x) (hy : Odd y) (he : Odd e) (h : x ^ e ≡ y ^ e [ZMOD 2 ^ k]) :
    x ≡ y [ZMOD 2 ^ k] := by
  have hdifference : (2 : Int) ∣ y - x := (hy.sub_odd hx).two_dvd
  have hbase : ¬(2 : Int) ∣ y := fun hdvd => Int.not_even_iff_odd.2 hy (even_iff_two_dvd.2 hdvd)
  have hexponent : ¬(2 : Int) ∣ (e : Int) := by
    obtain ⟨d, rfl⟩ := he
    omega
  have hfactor := emultiplicity_pow_sub_pow_of_prime Int.prime_two hdifference hbase hexponent
  rw [Int.modEq_iff_dvd, pow_dvd_iff_le_emultiplicity] at h ⊢
  rwa [← hfactor]

end

/-! ### Which powers the ends of the range stand for -/

section

variable {x : Int} {e : Nat}

theorem Wraps.modEq_of_dvd {n : Int64} {m : Int} (h : Wraps n x) (hm : m ∣ 2 ^ 64) : n.toInt ≡ x [ZMOD m] :=
  Int.ModEq.of_dvd hm h

/-- The smallest integer stands for no large power: for an even base the power is zero, for an odd one it is odd. -/
theorem not_wraps_minValue_pow (he : 64 ≤ e) : ¬Wraps Int64.minValue (x ^ e) := by
  intro h
  rcases Int.even_or_odd x with heven | hodd
  · have hzero := h.trans (pow_modEq_zero_of_even heven he)
    exact absurd hzero (by decide)
  · have hpower : Odd (x ^ e) := hodd.pow
    have hparity : Int64.minValue.toInt % 2 = x ^ e % 2 := h.modEq_of_dvd (by decide)
    rw [Int.odd_iff.1 hpower] at hparity
    exact absurd hparity (by decide)

theorem maxValue_pow_modEq (he : Odd e) : Int64.maxValue.toInt ^ e ≡ Int64.maxValue.toInt [ZMOD 2 ^ 64] := by
  obtain ⟨d, rfl⟩ := he
  have hsquare : Int64.maxValue.toInt ^ 2 ≡ 1 [ZMOD 2 ^ 64] := by decide
  have hpower : (Int64.maxValue.toInt ^ 2) ^ d * Int64.maxValue.toInt ≡ 1 ^ d * Int64.maxValue.toInt [ZMOD 2 ^ 64] :=
    (hsquare.pow d).mul_right _
  rwa [one_pow, one_mul, ← pow_mul, ← pow_succ] at hpower

/-- The largest integer stands for a large power only if it is the base. An even power of an odd base is one modulo
    eight, which the largest integer is not. -/
theorem wraps_maxValue_pow_iff {a : Int64} (he : 64 ≤ e) :
    Wraps Int64.maxValue (a.toInt ^ e) ↔ a = Int64.maxValue ∧ Odd e := by
  constructor
  · intro h
    rcases Int.even_or_odd a.toInt with heven | hodd
    · have hzero := h.trans (pow_modEq_zero_of_even heven he)
      exact absurd hzero (by decide)
    rcases Nat.even_or_odd e with hexponent | hexponent
    · have hmod : Int64.maxValue.toInt ≡ a.toInt ^ e [ZMOD 8] := h.modEq_of_dvd (by decide)
      exact absurd (hmod.trans (pow_modEq_one_of_even hodd hexponent)) (by decide)
    · have hbase : Int64.maxValue.toInt ≡ a.toInt [ZMOD 2 ^ 64] :=
        modEq_of_pow_modEq (by decide) hodd hexponent ((maxValue_pow_modEq hexponent).trans h)
      exact ⟨Wraps.unique hbase (wraps_toInt a), hexponent⟩
  · rintro ⟨rfl, hodd⟩
    exact (maxValue_pow_modEq hodd).symm

end

/-! ### Clamped powers against exact ones -/

section

variable {a b : Int64}

theorem power_eq_clampedPower (hb : b.toInt < 0 ∨ 2 ^ 32 ≤ b.toInt) (a : Int64) : power a b = clampedPower a b := by
  rw [power, isSmallExponent_eq_false_iff.2 hb, if_neg Bool.false_ne_true]

theorem clampedPower_neg_one :
    clampedPower (-1) b = if b.toInt.natAbs < 2 ^ 53 ∧ Odd b.toInt then -1 else 1 := by
  simp only [← isOddDouble_iff]
  rfl

theorem clampedPower_of_large (ha : 2 ≤ a.toInt.natAbs) (hb : 2 ^ 32 ≤ b.toInt) :
    clampedPower a b =
      if a.toInt < 0 ∧ b.toInt.natAbs < 2 ^ 53 ∧ Odd b.toInt then Int64.minValue else Int64.maxValue := by
  rw [clampedPower_of_two_le ha, if_neg (by omega)]
  simp only [isOddDouble_iff]

/-- For the base minus one the clamped power is the exact one if the parity of the exponent is kept. -/
theorem clampedPower_neg_one_iff :
    (clampedPower (-1) b).toInt = (-1) ^ b.toInt.natAbs ↔ Even b.toInt ∨ b.toInt.natAbs < 2 ^ 53 := by
  rw [clampedPower_neg_one]
  rcases Int.even_or_odd b.toInt with heven | hodd
  · have hpower : (-1 : Int) ^ b.toInt.natAbs = 1 := (Int.natAbs_even.2 heven).neg_one_pow
    rw [if_neg fun h => Int.not_odd_iff_even.2 heven h.2, hpower]
    exact iff_of_true rfl (.inl heven)
  · have hpower : (-1 : Int) ^ b.toInt.natAbs = -1 := (Int.natAbs_odd.2 hodd).neg_one_pow
    rw [hpower, or_iff_right (Int.not_even_iff_odd.2 hodd)]
    split
    · next hsmall => exact iff_of_true rfl hsmall.1
    · next hlarge => exact iff_of_false (by decide) fun h => hlarge ⟨h, hodd⟩

theorem cast_neg_one_zpow (y : Int) : ((-1 : Int) : Rat) ^ y = ((-1) ^ y.natAbs : Int) := by
  rw [Int.cast_pow, Int.cast_neg, Int.cast_one]
  rcases Int.even_or_odd y with heven | hodd
  · rw [heven.neg_one_zpow, (Int.natAbs_even.2 heven).neg_one_pow]
  · rw [hodd.neg_one_zpow, (Int.natAbs_odd.2 hodd).neg_one_pow]

/-- An integer in range is stood for by itself alone. -/
theorem wraps_iff_of_toInt {n m : Int64} {x : Int} (hm : m.toInt = x) : Wraps n x ↔ n.toInt = x := by
  rw [← hm, Int64.toInt_inj]
  constructor
  · intro h
    exact (h.unique (wraps_toInt m)).symm
  · rintro rfl
    exact wraps_toInt n

theorem wraps_neg_one_pow_iff {n : Int64} {e : Nat} : Wraps n ((-1) ^ e) ↔ n.toInt = (-1) ^ e := by
  rcases neg_one_pow_eq_or Int e with h | h
  · have hself : (1 : Int64).toInt = (-1) ^ e := h.symm
    exact wraps_iff_of_toInt hself
  · have hself : (-1 : Int64).toInt = (-1) ^ e := h.symm
    exact wraps_iff_of_toInt hself

theorem wraps_clampedPower_neg_one_iff (hb : 2 ^ 32 ≤ b.toInt) :
    Wraps (clampedPower (-1) b) ((-1) ^ b.toInt.toNat) ↔ Even b.toInt ∨ b.toInt < 2 ^ 53 := by
  have hnat : b.toInt.toNat = b.toInt.natAbs := by omega
  have hsmall : b.toInt.natAbs < 2 ^ 53 ↔ b.toInt < 2 ^ 53 := by omega
  rw [hnat, wraps_neg_one_pow_iff, clampedPower_neg_one_iff, hsmall]

theorem wraps_clampedPower_of_two_le (ha : 2 ≤ a.toInt.natAbs) (hb : 2 ^ 32 ≤ b.toInt) :
    Wraps (clampedPower a b) (a.toInt ^ b.toInt.toNat) ↔ a = Int64.maxValue ∧ Odd b.toInt := by
  have hodd : Odd b.toInt.toNat ↔ Odd b.toInt := by
    rw [← Int.odd_coe_nat, Int.toNat_of_nonneg (by omega)]
  rw [clampedPower_of_large ha hb]
  split
  · next hmin =>
    refine iff_of_false (not_wraps_minValue_pow (by omega)) ?_
    rintro ⟨rfl, _⟩
    exact absurd hmin.1 (by decide)
  · rw [wraps_maxValue_pow_iff (by omega), hodd]

/-- The bases whose large powers are right modulo the 64th power of two. -/
theorem wraps_clampedPower_iff (hb : 2 ^ 32 ≤ b.toInt) :
    Wraps (clampedPower a b) (a.toInt ^ b.toInt.toNat) ↔
      a = 0 ∨ a = 1 ∨ a = -1 ∧ (Even b.toInt ∨ b.toInt < 2 ^ 53) ∨ a = Int64.maxValue ∧ Odd b.toInt := by
  rcases base_cases a with rfl | rfl | rfl | ha
  · have hclamped : clampedPower 0 b = 0 := by
      rw [clampedPower, if_pos rfl, if_neg (by rw [Int64.lt_iff_toInt_lt, Int64.toInt_zero]; omega)]
    rw [hclamped, Int64.toInt_zero, zero_pow (by omega)]
    exact iff_of_true (wraps_toInt 0) (.inl rfl)
  · have hpower : (1 : Int64).toInt ^ b.toInt.toNat = 1 := one_pow _
    rw [hpower]
    exact iff_of_true (wraps_toInt 1) (.inr (.inl rfl))
  · have hzero : (-1 : Int64) ≠ 0 := by decide
    have hone : (-1 : Int64) ≠ 1 := by decide
    have hmax : (-1 : Int64) ≠ Int64.maxValue := by decide
    simp only [hzero, hone, hmax, true_and, false_and, false_or, or_false]
    exact wraps_clampedPower_neg_one_iff hb
  · obtain ⟨hzero, hone, hneg⟩ := ne_of_two_le ha
    simp only [hzero, hone, hneg, false_and, false_or]
    exact wraps_clampedPower_of_two_le ha hb

/-- The powers with a negative exponent that are the exact ones, cut toward zero. -/
theorem toInt_clampedPower_iff (ha : a ≠ 0) (hb : b.toInt < 0) :
    (clampedPower a b).toInt = towardZero ((a.toInt : Rat) ^ b.toInt) ↔
      ¬(a = -1 ∧ Odd b.toInt ∧ b.toInt ≤ -2 ^ 53) := by
  rcases base_cases a with rfl | rfl | rfl | hlarge
  · exact absurd rfl ha
  · have hpower : (((1 : Int64).toInt : Int) : Rat) ^ b.toInt = (1 : Int) := by
      rw [show (1 : Int64).toInt = 1 from rfl, Int.cast_one, one_zpow]
    rw [hpower, towardZero_intCast]
    refine iff_of_true rfl fun h => absurd h.1 (by decide)
  · rw [show (-1 : Int64).toInt = -1 from rfl, cast_neg_one_zpow, towardZero_intCast, clampedPower_neg_one_iff,
      ← Int.not_odd_iff_even]
    have hsmall : b.toInt.natAbs < 2 ^ 53 ↔ ¬b.toInt ≤ -2 ^ 53 := by omega
    simp only [hsmall, true_and, not_and_or]
  · obtain ⟨_, _, hneg⟩ := ne_of_two_le hlarge
    rw [clampedPower_of_two_le hlarge, if_pos hb, towardZero_of_abs_lt_one (abs_zpow_lt_one hlarge hb)]
    exact iff_of_true rfl fun h => hneg h.1

end

end Number

/-! ### Powers as an operator computes them -/

namespace Operators

open Number

theorem yields_number_iff {n : Int64} {x : Int} : Yields (.ok (.number n)) x ↔ Wraps n x := by
  constructor
  · rintro ⟨m, hm, hwraps, _⟩
    cases hm
    exact hwraps
  · exact yields_of_wraps

theorem binary_pow (a b : Int64) : binary .pow (.number a) (.number b) = .ok (.number (power a b)) := rfl

/-- Powers whose exponent is negative or has more than 32 bits. Each is the power of the rounded operands, cut to an
    integer, however doubles are raised to a power. With a large exponent it is exact modulo the 64th power of two
    for zero and one, for minus one if the exponent is even or has at most 53 bits, and for the largest integer if
    the exponent is odd. A base of magnitude two or more is clamped to an end of the range, where an odd exponent
    of more bits counts as an even one. With a negative exponent the power is the exact one cut toward zero, unless
    the base is minus one and the exponent is odd and has more bits; minus one to an exponent of more bits is one. -/
theorem pow_of_large_or_negative (a b : Int64) :
    (b.toInt < 0 ∨ 2 ^ 32 ≤ b.toInt → ∀ D : DoublePower,
      binary .pow (.number a) (.number b) =
        .ok (.number (cut (D.power (nearestDouble a.toInt) (nearestDouble b.toInt))))) ∧
    (2 ^ 32 ≤ b.toInt →
      (Yields (binary .pow (.number a) (.number b)) (a.toInt ^ b.toInt.toNat) ↔
        a = 0 ∨ a = 1 ∨ a = -1 ∧ (Even b.toInt ∨ b.toInt < 2 ^ 53) ∨ a = Int64.maxValue ∧ Odd b.toInt)) ∧
    (2 ^ 32 ≤ b.toInt → 2 ≤ |a.toInt| →
      binary .pow (.number a) (.number b) = .ok (.number
        (if a.toInt < 0 ∧ Odd b.toInt ∧ b.toInt < 2 ^ 53 then Int64.minValue else Int64.maxValue))) ∧
    (b.toInt < 0 → a ≠ 0 →
      ∃ n : Int64, binary .pow (.number a) (.number b) = .ok (.number n) ∧
        (n.toInt = towardZero ((a.toInt : Rat) ^ b.toInt) ↔
          ¬(a = -1 ∧ Odd b.toInt ∧ b.toInt ≤ -2 ^ 53))) ∧
    (2 ^ 53 ≤ |b.toInt| → binary .pow (.number (-1)) (.number b) = .ok (.number 1)) := by
  constructor
  · intro hb D
    rw [binary_pow, power_eq_cut D, isSmallExponent_eq_false_iff.2 hb, if_neg Bool.false_ne_true]
  constructor
  · intro hb
    rw [binary_pow, power_eq_clampedPower (.inr hb), yields_number_iff]
    exact wraps_clampedPower_iff hb
  constructor
  · intro hb ha
    rw [Int.abs_eq_natAbs] at ha
    have hsmall : b.toInt.natAbs < 2 ^ 53 ∧ Odd b.toInt ↔ Odd b.toInt ∧ b.toInt < 2 ^ 53 := by
      rw [and_comm, show b.toInt.natAbs < 2 ^ 53 ↔ b.toInt < 2 ^ 53 by omega]
    rw [binary_pow, power_eq_clampedPower (.inr hb), clampedPower_of_large (by omega) hb]
    simp only [hsmall]
  constructor
  · intro hb ha
    refine ⟨clampedPower a b, ?_, toInt_clampedPower_iff ha hb⟩
    rw [binary_pow, power_eq_clampedPower (.inl hb)]
  · intro hlarge
    rw [Int.abs_eq_natAbs] at hlarge
    rw [binary_pow, power_eq_clampedPower (by omega), clampedPower_neg_one, if_neg fun h => by omega]

/-- The first power of two with too large an exponent is clamped, an odd power of the largest integer is exact, a
    half is cut to zero, and the parity of an exponent is kept below the 53rd power of two and lost above it. -/
theorem pow_of_large_or_negative_of_two :
    binary .pow (.number 2) (.number 4294967296) =
      .ok (.number (cut (DoublePower.exact.power (nearestDouble (2 : Int64).toInt)
        (nearestDouble (4294967296 : Int64).toInt)))) ∧
    binary .pow (.number 2) (.number 4294967296) = .ok (.number Int64.maxValue) ∧
    Yields (binary .pow (.number Int64.maxValue) (.number 4294967297))
      (Int64.maxValue.toInt ^ (4294967297 : Int64).toInt.toNat) ∧
    (∃ n : Int64, binary .pow (.number 2) (.number (-1)) = .ok (.number n) ∧
      n.toInt = towardZero (((2 : Int64).toInt : Rat) ^ (-1 : Int64).toInt)) ∧
    (∃ n : Int64, binary .pow (.number (-1)) (.number (-3)) = .ok (.number n) ∧
      n.toInt = towardZero (((-1 : Int64).toInt : Rat) ^ (-3 : Int64).toInt)) ∧
    binary .pow (.number (-1)) (.number (-9007199254740993)) = .ok (.number 1) := by
  obtain ⟨hdoubles, _, hclamped, _, _⟩ := pow_of_large_or_negative 2 4294967296
  obtain ⟨_, hexact, _, _, _⟩ := pow_of_large_or_negative Int64.maxValue 4294967297
  obtain ⟨_, _, _, hhalf, _⟩ := pow_of_large_or_negative 2 (-1)
  obtain ⟨_, _, _, hodd, _⟩ := pow_of_large_or_negative (-1) (-3)
  obtain ⟨_, _, _, _, hlost⟩ := pow_of_large_or_negative (-1) (-9007199254740993)
  have hlargest : Odd (4294967297 : Int64).toInt := by decide
  obtain ⟨n, hn, hcut⟩ := hhalf (by decide) (by decide)
  obtain ⟨m, hm, hsign⟩ := hodd (by decide) (by decide)
  refine ⟨hdoubles (by decide) DoublePower.exact, hclamped (by decide) (by decide), ?_⟩
  refine ⟨(hexact (by decide)).2 (.inr (.inr (.inr ⟨rfl, hlargest⟩))), ?_⟩
  refine ⟨⟨n, hn, hcut.2 (by decide)⟩, ⟨m, hm, hsign.2 (by decide)⟩, ?_⟩
  exact hlost (by decide)

/-- A power with a large exponent need not be exact modulo the 64th power of two, and one with a negative exponent
    need not be the exact one cut toward zero. -/
theorem pow_is_not_exact :
    (∃ a b : Int64, a = 2 ∧ b = 4294967296 ∧ 2 ^ 32 ≤ b.toInt ∧
      binary .pow (.number a) (.number b) = .ok (.number Int64.maxValue) ∧
      Wraps 0 (a.toInt ^ b.toInt.toNat) ∧
      ¬Yields (binary .pow (.number a) (.number b)) (a.toInt ^ b.toInt.toNat)) ∧
    (∃ a b : Int64, a = -1 ∧ b = -9007199254740993 ∧ b.toInt < 0 ∧ a ≠ 0 ∧
      binary .pow (.number a) (.number b) = .ok (.number 1) ∧
      towardZero ((a.toInt : Rat) ^ b.toInt) = -1) := by
  constructor
  · have hlarge : 2 ^ 32 ≤ (4294967296 : Int64).toInt := by decide
    have hzero : Wraps 0 ((2 : Int64).toInt ^ (4294967296 : Int64).toInt.toNat) :=
      (pow_modEq_zero_of_even (by decide) (by omega)).symm
    have hclamped : power 2 4294967296 = Int64.maxValue := by decide
    refine ⟨2, 4294967296, rfl, rfl, hlarge, by rw [binary_pow, hclamped], hzero, ?_⟩
    rw [binary_pow, hclamped, yields_number_iff]
    intro hwraps
    exact absurd (hwraps.unique hzero) (by decide)
  · have hclamped : power (-1) (-9007199254740993) = 1 := by decide
    refine ⟨-1, -9007199254740993, rfl, rfl, by decide, by decide, by rw [binary_pow, hclamped], ?_⟩
    rw [show (-1 : Int64).toInt = -1 from rfl, cast_neg_one_zpow, towardZero_intCast]
    exact Odd.neg_one_pow (by decide)

end Operators

end Kiln
