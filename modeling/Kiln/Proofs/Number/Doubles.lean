/-
Module: Kiln.Proofs.Number.Doubles
Purpose: Powers in double precision. Base and exponent are rounded to doubles, and the power of the doubles is cut
  to a 64 bit integer. How an integer is rounded and how a double is cut is fixed; of the power in between only a
  few laws are known. For an exponent that is not a natural number of 32 bits they leave no choice: the power given
  case by case is the one they force.
Main exports: Number.nearestDouble, Number.towardZero, Number.cut, Number.DoublePower, Number.power_eq_cut
-/
import Kiln.Proofs.Number.Arithmetic
import Mathlib.Algebra.Order.Field.Power
import Mathlib.Algebra.Ring.Int.Parity
import Mathlib.Data.Nat.Size
import Mathlib.Data.Rat.Floor

namespace Kiln.Number

/-! ### From integers to doubles -/

/-- The double nearest to an integer, and of two that are equally near the even one. A double keeps 53 binary
    digits. -/
def nearestDouble (n : Int) : Int :=
  let unit := 2 ^ (n.natAbs.size - 53)
  let kept := n.natAbs / unit
  let rest := n.natAbs % unit
  let rounded := if unit < 2 * rest ∨ unit = 2 * rest ∧ kept % 2 = 1 then kept + 1 else kept
  n.sign * ((rounded * unit : Nat) : Int)

variable {n : Int}

theorem nearestDouble_of_lt (h : n.natAbs < 2 ^ 53) : nearestDouble n = n := by
  have hunit : n.natAbs.size - 53 = 0 := Nat.sub_eq_zero_of_le (Nat.size_le.2 h)
  simp only [nearestDouble, hunit, pow_zero, Nat.mod_one, Nat.div_one, Nat.mul_one]
  rw [if_neg (by omega)]
  exact Int.sign_mul_natAbs n

/-- A large integer is rounded to a large even one. -/
theorem exists_nearestDouble_eq (h : 2 ^ 53 ≤ n.natAbs) :
    ∃ m : Nat, 2 ^ 53 ≤ m ∧ Even m ∧ nearestDouble n = n.sign * m := by
  obtain ⟨s, hs⟩ : ∃ s, n.natAbs.size = 53 + s + 1 :=
    Nat.exists_eq_add_of_lt (Nat.lt_size.2 h)
  have hlost : n.natAbs.size - 53 = s + 1 := by omega
  have hlow : 2 ^ (53 + s) ≤ n.natAbs := Nat.lt_size.1 (by omega)
  have hkept : 2 ^ 52 ≤ n.natAbs / 2 ^ (s + 1) := by
    rw [Nat.le_div_iff_mul_le (Nat.two_pow_pos _), ← pow_add]
    rwa [show 52 + (s + 1) = 53 + s by omega]
  have hlarge : ∀ kept : Nat, 2 ^ 52 ≤ kept → 2 ^ 53 ≤ kept * 2 ^ (s + 1) := by
    intro kept hk
    calc 2 ^ 53 = 2 ^ 52 * 2 ^ 1 := by rw [← pow_add]
      _ ≤ kept * 2 ^ (s + 1) := Nat.mul_le_mul hk (Nat.pow_le_pow_right (by omega) (by omega))
  have heven : ∀ kept : Nat, Even (kept * 2 ^ (s + 1)) := by
    intro kept
    rw [pow_succ]
    exact ((even_two.mul_left _).mul_left _)
  simp only [nearestDouble, hlost]
  refine ⟨_, hlarge _ ?_, heven _, rfl⟩
  split
  · exact Nat.le_succ_of_le hkept
  · exact hkept

/-- Halfway between two doubles the even one is taken, here the lower and here the upper. -/
example : nearestDouble 9007199254740993 = 9007199254740992 ∧
    nearestDouble 9007199254740995 = 9007199254740996 := by decide

/-- Rounding does not go below a bound that has room in a double. -/
theorem le_nearestDouble {k : Int} (pos : 0 < k) (small : k ≤ 2 ^ 53) (h : k ≤ n) : k ≤ nearestDouble n := by
  by_cases hn : n.natAbs < 2 ^ 53
  · rwa [nearestDouble_of_lt hn]
  · obtain ⟨m, hm, _, heq⟩ := exists_nearestDouble_eq (Nat.le_of_not_lt hn)
    rw [heq, Int.sign_eq_one_of_pos (by omega), Int.one_mul]
    omega

theorem nearestDouble_le_neg {k : Int} (pos : 0 < k) (small : k ≤ 2 ^ 53) (h : n ≤ -k) :
    nearestDouble n ≤ -k := by
  by_cases hn : n.natAbs < 2 ^ 53
  · rwa [nearestDouble_of_lt hn]
  · obtain ⟨m, hm, _, heq⟩ := exists_nearestDouble_eq (Nat.le_of_not_lt hn)
    rw [heq, Int.sign_eq_neg_one_of_neg (by omega)]
    omega

/-- Rounding keeps the sign, and does not go below two. -/
theorem nearestDouble_of_two_le (h : 2 ≤ n.natAbs) :
    2 ≤ (nearestDouble n).natAbs ∧ (nearestDouble n < 0 ↔ n < 0) := by
  rcases lt_or_ge n 0 with hneg | hpos
  · have hle : nearestDouble n ≤ -2 := nearestDouble_le_neg two_pos (by omega) (by omega)
    omega
  · have hle : 2 ≤ nearestDouble n := le_nearestDouble two_pos (by omega) (by omega)
    omega

/-- Only a small odd integer is odd as a double. -/
theorem odd_nearestDouble_iff : Odd (nearestDouble n) ↔ n.natAbs < 2 ^ 53 ∧ Odd n := by
  by_cases hn : n.natAbs < 2 ^ 53
  · rw [nearestDouble_of_lt hn]
    exact (and_iff_right hn).symm
  · obtain ⟨m, _, heven, heq⟩ := exists_nearestDouble_eq (Nat.le_of_not_lt hn)
    have hdouble : Even (nearestDouble n) := by
      rw [heq]
      exact ((Int.even_coe_nat m).2 heven).mul_left _
    exact iff_of_false (Int.not_odd_iff_even.2 hdouble) fun h => hn h.1

theorem isOddDouble_iff {exponent : Int64} :
    isOddDouble exponent = true ↔ exponent.toInt.natAbs < 2 ^ 53 ∧ Odd exponent.toInt := by
  rw [Int.odd_iff]
  simp only [isOddDouble, Bool.and_eq_true, decide_eq_true_eq, bne_iff_ne, ne_eq]
  omega

/-! ### From doubles to integers -/

/-- A double: a finite number, an infinity with its sign, or no number. -/
inductive Double where
  | finite (value : Rat)
  | infinite (negative : Bool)
  | undefined

/-- A rational number without its fraction. -/
def towardZero (q : Rat) : Int :=
  if 0 ≤ q then ⌊q⌋ else ⌈q⌉

/-- A double as a 64 bit integer: cut toward zero, and clamped. What is no number gives zero. -/
def cut : Double → Int64
  | .finite q => Int64.ofInt (max Int64.minValue.toInt (min Int64.maxValue.toInt (towardZero q)))
  | .infinite negative => if negative then Int64.minValue else Int64.maxValue
  | .undefined => 0

theorem towardZero_intCast (x : Int) : towardZero x = x := by
  rw [towardZero, Int.floor_intCast, Int.ceil_intCast, ite_self]

theorem towardZero_of_abs_lt_one {q : Rat} (h : |q| < 1) : towardZero q = 0 := by
  obtain ⟨hlow, hhigh⟩ := abs_lt.1 h
  rw [towardZero]
  split
  · next hq => exact Int.floor_eq_zero_iff.2 ⟨hq, hhigh⟩
  · next hq => exact Int.ceil_eq_zero_iff.2 ⟨hlow, (not_le.1 hq).le⟩

theorem cut_of_abs_lt_one {q : Rat} (h : |q| < 1) : cut (.finite q) = 0 := by
  rw [cut, towardZero_of_abs_lt_one h]
  rfl

@[simp] theorem cut_finite_zero : cut (.finite 0) = 0 := cut_of_abs_lt_one (by simp)

@[simp] theorem cut_finite_one : cut (.finite 1) = 1 := by
  have h : towardZero 1 = 1 := mod_cast towardZero_intCast 1
  rw [cut, h]
  rfl

@[simp] theorem cut_finite_neg_one : cut (.finite (-1)) = -1 := by
  have h : towardZero (-1) = -1 := mod_cast towardZero_intCast (-1)
  rw [cut, h]
  rfl

/-! ### Powers of doubles -/

/-- A power of doubles that are integers, with what is known of it: the powers of zero, the powers that are one in
    magnitude, and on which side of one or of all doubles the others lie. -/
structure DoublePower where
  power : Int → Int → Double
  power_zero : ∀ y : Int, 0 < y → power 0 y = .finite 0
  power_pole : ∀ y : Int, y < 0 → power 0 y = .infinite false
  power_one : ∀ x y : Int, (x : Rat) ^ y = 1 → power x y = .finite 1
  power_neg_one : ∀ x y : Int, (x : Rat) ^ y = -1 → power x y = .finite (-1)
  power_fraction : ∀ x y : Int, x ≠ 0 → |(x : Rat) ^ y| < 1 → ∃ q, power x y = .finite q ∧ |q| < 1
  power_overflow : ∀ x y : Int, 2 ^ 1024 ≤ |(x : Rat) ^ y| → power x y = .infinite (decide ((x : Rat) ^ y < 0))

section

variable {x y : Int}

theorem two_le_abs_cast (hx : 2 ≤ x.natAbs) : (2 : Rat) ≤ |(x : Rat)| := by
  have habs : (2 : Int) ≤ |x| := by
    rw [Int.abs_eq_natAbs]
    omega
  exact_mod_cast habs

/-- A base of magnitude two or more gives a fraction for a negative exponent. -/
theorem abs_zpow_lt_one (hx : 2 ≤ x.natAbs) (hy : y < 0) : |(x : Rat) ^ y| < 1 := by
  have habs := two_le_abs_cast hx
  rw [abs_zpow]
  exact zpow_lt_one_of_neg₀ (lt_of_lt_of_le one_lt_two habs) hy

theorem two_pow_le_abs_zpow (hx : 2 ≤ x.natAbs) {k : Nat} (hy : k ≤ y) : 2 ^ k ≤ |(x : Rat) ^ y| := by
  have habs := two_le_abs_cast hx
  rw [abs_zpow]
  calc (2 : Rat) ^ k = 2 ^ (k : Int) := (zpow_natCast 2 k).symm
    _ ≤ 2 ^ y := zpow_le_zpow_right₀ one_le_two hy
    _ ≤ |(x : Rat)| ^ y := zpow_le_zpow_left₀ (by omega) zero_le_two habs

end

/-- The power with as many digits as it needs. -/
def exactPower (x y : Int) : Double :=
  if x = 0 ∧ y < 0 then .infinite false
  else if 2 ^ 1024 ≤ |(x : Rat) ^ y| then .infinite (decide ((x : Rat) ^ y < 0))
  else .finite ((x : Rat) ^ y)

section

variable {x y : Int}

theorem exactPower_of_abs_le_one (defined : ¬(x = 0 ∧ y < 0)) (h : |(x : Rat) ^ y| ≤ 1) :
    exactPower x y = .finite ((x : Rat) ^ y) := by
  have hrange : ¬2 ^ 1024 ≤ |(x : Rat) ^ y| :=
    not_le.2 (lt_of_le_of_lt h (one_lt_pow₀ one_lt_two (by omega)))
  rw [exactPower, if_neg defined, if_neg hrange]

theorem defined_of_zpow_ne_zero (h : (x : Rat) ^ y ≠ 0) : ¬(x = 0 ∧ y < 0) := by
  rintro ⟨rfl, hy⟩
  exact h (by rw [Int.cast_zero, zero_zpow y (by omega)])

end

/-- The laws can be met: by the power with as many digits as it needs. -/
def DoublePower.exact : DoublePower where
  power := exactPower
  power_zero y hy := by
    have hzero : ((0 : Int) : Rat) ^ y = 0 := by rw [Int.cast_zero, zero_zpow y (by omega)]
    have hpower := exactPower_of_abs_le_one (x := 0) (y := y) (by omega) (by rw [hzero]; simp)
    rwa [hzero] at hpower
  power_pole y hy := if_pos ⟨rfl, hy⟩
  power_one x y h := by
    have hpower := exactPower_of_abs_le_one (x := x) (y := y)
      (defined_of_zpow_ne_zero (by rw [h]; exact one_ne_zero)) (by rw [h, abs_one])
    rwa [h] at hpower
  power_neg_one x y h := by
    have hpower := exactPower_of_abs_le_one (x := x) (y := y)
      (defined_of_zpow_ne_zero (by rw [h]; simp)) (by rw [h, abs_neg, abs_one])
    rwa [h] at hpower
  power_fraction x y hx h :=
    ⟨(x : Rat) ^ y, exactPower_of_abs_le_one (fun hpole => hx hpole.1) h.le, h⟩
  power_overflow x y h := by
    have hne : (x : Rat) ^ y ≠ 0 := by
      rintro hzero
      rw [hzero, abs_zero] at h
      exact absurd h (not_le.2 (pow_pos two_pos _))
    rw [exactPower, if_neg (defined_of_zpow_ne_zero hne), if_pos h]

/-! ### The powers cut to integers, by their base -/

namespace DoublePower

variable (D : DoublePower) {x y : Int}

theorem cut_power_zero (hy : y ≠ 0) : cut (D.power 0 y) = if y < 0 then Int64.maxValue else 0 := by
  split
  · next hneg =>
    rw [D.power_pole y hneg]
    rfl
  · next hpos => rw [D.power_zero y (by omega), cut_finite_zero]

theorem cut_power_one (y : Int) : cut (D.power 1 y) = 1 := by
  have hpower : ((1 : Int) : Rat) ^ y = 1 := by rw [Int.cast_one, one_zpow]
  rw [D.power_one 1 y hpower, cut_finite_one]

theorem cut_power_neg_one (y : Int) : cut (D.power (-1) y) = if Odd y then -1 else 1 := by
  split
  · next hodd =>
    have hpower : ((-1 : Int) : Rat) ^ y = -1 := by rw [Int.cast_neg, Int.cast_one, hodd.neg_one_zpow]
    rw [D.power_neg_one (-1) y hpower, cut_finite_neg_one]
  · next heven =>
    have hpower : ((-1 : Int) : Rat) ^ y = 1 := by
      rw [Int.cast_neg, Int.cast_one, (Int.not_odd_iff_even.1 heven).neg_one_zpow]
    rw [D.power_one (-1) y hpower, cut_finite_one]

/-- A fraction is cut to zero. A power out of range is clamped to the end on its side. -/
theorem cut_power_of_two_le (hx : 2 ≤ x.natAbs) (hy : y < 0 ∨ 1024 ≤ y) :
    cut (D.power x y) = if y < 0 then 0
      else if x < 0 ∧ Odd y then Int64.minValue else Int64.maxValue := by
  rcases hy with hneg | hlarge
  · obtain ⟨q, hpower, hq⟩ := D.power_fraction x y (by omega) (abs_zpow_lt_one hx hneg)
    rw [if_pos hneg, hpower, cut_of_abs_lt_one hq]
  · have hrange : (2 : Rat) ^ 1024 ≤ |(x : Rat) ^ y| := two_pow_le_abs_zpow hx hlarge
    have hsign : (x : Rat) ^ y < 0 ↔ x < 0 ∧ Odd y := by
      by_cases hodd : Odd y
      · rw [hodd.zpow_neg_iff, Int.cast_lt_zero, and_iff_left hodd]
      · have hnonneg := (Int.not_odd_iff_even.1 hodd).zpow_nonneg (x : Rat)
        exact iff_of_false (not_lt.2 hnonneg) fun h => hodd h.2
    rw [if_neg (by omega), D.power_overflow x y hrange, cut]
    simp only [hsign, decide_eq_true_eq]

end DoublePower

/-! ### The power case by case -/

section

variable {a b : Int64}

/-- The bases whose powers stay in range, and the others. -/
theorem base_cases (a : Int64) : a = 0 ∨ a = 1 ∨ a = -1 ∨ 2 ≤ a.toInt.natAbs := by
  rw [← Int64.toInt_inj, ← Int64.toInt_inj, ← Int64.toInt_inj, show (0 : Int64).toInt = 0 from rfl,
    show (1 : Int64).toInt = 1 from rfl, show (-1 : Int64).toInt = -1 from rfl]
  omega

theorem ne_of_two_le (ha : 2 ≤ a.toInt.natAbs) : a ≠ 0 ∧ a ≠ 1 ∧ a ≠ -1 := by
  refine ⟨?_, ?_, ?_⟩
  all_goals
    rintro rfl
    exact absurd ha (by decide)

theorem clampedPower_of_two_le (ha : 2 ≤ a.toInt.natAbs) :
    clampedPower a b = if b.toInt < 0 then 0
      else if a.toInt < 0 ∧ isOddDouble b = true then Int64.minValue else Int64.maxValue := by
  obtain ⟨hzero, hone, hneg⟩ := ne_of_two_le ha
  rw [clampedPower, if_neg hzero, if_neg hone, if_neg hneg]
  simp only [Int64.lt_iff_toInt_lt, Int64.toInt_zero, Bool.and_eq_true, decide_eq_true_eq]

theorem isSmallExponent_eq_false_iff :
    isSmallExponent b = false ↔ b.toInt < 0 ∨ 2 ^ 32 ≤ b.toInt := by
  simp only [isSmallExponent, Bool.and_eq_false_iff, decide_eq_false_iff_not]
  omega

/-- An exponent that is negative or has more than 32 bits is so as a double. -/
theorem nearestDouble_of_exponent (h : n < 0 ∨ 2 ^ 32 ≤ n) :
    (nearestDouble n < 0 ↔ n < 0) ∧ (nearestDouble n < 0 ∨ 2 ^ 32 ≤ nearestDouble n) := by
  rcases h with hneg | hlarge
  · have hdouble : nearestDouble n ≤ -1 := nearestDouble_le_neg one_pos (by omega) (by omega)
    omega
  · have hdouble : 2 ^ 32 ≤ nearestDouble n := le_nearestDouble (by omega) (by omega) hlarge
    omega

end

/-- Outside the exponents of 32 bits, what is known of the power of doubles settles the power of integers. -/
theorem clampedPower_eq_cut (D : DoublePower) (a : Int64) {b : Int64} (h : isSmallExponent b = false) :
    clampedPower a b = cut (D.power (nearestDouble a.toInt) (nearestDouble b.toInt)) := by
  obtain ⟨hsign, hrange⟩ := nearestDouble_of_exponent (isSmallExponent_eq_false_iff.1 h)
  have hodd : isOddDouble b = true ↔ Odd (nearestDouble b.toInt) :=
    isOddDouble_iff.trans odd_nearestDouble_iff.symm
  generalize nearestDouble b.toInt = y at hsign hrange hodd ⊢
  rcases base_cases a with rfl | rfl | rfl | ha
  · rw [Int64.toInt_zero, nearestDouble_of_lt (by decide), D.cut_power_zero (by omega), clampedPower,
      if_pos rfl]
    simp only [hsign, Int64.lt_iff_toInt_lt, Int64.toInt_zero]
  · rw [show (1 : Int64).toInt = 1 from rfl, nearestDouble_of_lt (by decide), D.cut_power_one]
    rfl
  · rw [show (-1 : Int64).toInt = -1 from rfl, nearestDouble_of_lt (by decide), D.cut_power_neg_one,
      clampedPower, if_neg (by decide), if_neg (by decide), if_pos rfl]
    simp only [hodd]
  · obtain ⟨hx, hnegative⟩ := nearestDouble_of_two_le ha
    rw [clampedPower_of_two_le ha, D.cut_power_of_two_le hx (by omega)]
    simp only [hsign, hnegative, hodd]

/-- The power of integers through any power of doubles. -/
theorem power_eq_cut (D : DoublePower) (a b : Int64) :
    power a b = if isSmallExponent b then wrappedPower a b.toInt.toNat
      else cut (D.power (nearestDouble a.toInt) (nearestDouble b.toInt)) := by
  rw [power]
  split
  · rfl
  · next h => exact clampedPower_eq_cut D a (Bool.eq_false_iff.2 h)

end Kiln.Number
