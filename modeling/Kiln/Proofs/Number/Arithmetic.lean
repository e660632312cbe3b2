/-
Module: Kiln.Proofs.Number.Arithmetic
Purpose: Operators on numbers are exact modulo the 64th power of two. What an operator computes on 64 bit integers
  stands for what it would compute on all integers, and division goes toward zero.
Main exports: Number.Wraps, Number.Wraps.unique, Number.wraps_wrappedPower, Operators.Yields,
  Operators.arithmetic_exact
-/
import Kiln.Eval.Operators
import Mathlib.Data.Int.ModEq

namespace Kiln

namespace Number

/-! ### Integers and the 64 bit integers that stand for them -/

/-- The 64 bit integer agrees with the integer modulo the 64th power of two. -/
def Wraps (n : Int64) (x : Int) : Prop := n.toInt ≡ x [ZMOD 2 ^ 64]

variable {n m : Int64} {x y : Int}

theorem wraps_of_toInt_eq (h : n.toInt = x.bmod (2 ^ 64)) : Wraps n x := by
  rw [Wraps, h]
  exact Int.bmod_emod

/-- At most one 64 bit integer stands for an integer. -/
theorem Wraps.unique (hn : Wraps n x) (hm : Wraps m x) : m = n := by
  have hmod : m.toInt % (2 ^ 64 : Nat) = n.toInt % (2 ^ 64 : Nat) := hm.trans hn.symm
  apply Int64.toInt_inj.1
  calc m.toInt = m.toInt.bmod (2 ^ 64) := (Int64.toInt_bmod m).symm
    _ = (m.toInt % (2 ^ 64 : Nat)).bmod (2 ^ 64) := (Int.emod_bmod _ _).symm
    _ = (n.toInt % (2 ^ 64 : Nat)).bmod (2 ^ 64) := by rw [hmod]
    _ = n.toInt.bmod (2 ^ 64) := Int.emod_bmod _ _
    _ = n.toInt := Int64.toInt_bmod n

theorem wraps_toInt (n : Int64) : Wraps n n.toInt := Int.ModEq.refl _

theorem Wraps.add (hn : Wraps n x) (hm : Wraps m y) : Wraps (n + m) (x + y) :=
  (wraps_of_toInt_eq (Int64.toInt_add n m)).trans (Int.ModEq.add hn hm)

theorem Wraps.sub (hn : Wraps n x) (hm : Wraps m y) : Wraps (n - m) (x - y) :=
  (wraps_of_toInt_eq (Int64.toInt_sub n m)).trans (Int.ModEq.sub hn hm)

theorem Wraps.mul (hn : Wraps n x) (hm : Wraps m y) : Wraps (n * m) (x * y) :=
  (wraps_of_toInt_eq (Int64.toInt_mul n m)).trans (Int.ModEq.mul hn hm)

theorem Wraps.div (n m : Int64) : Wraps (n / m) (n.toInt.tdiv m.toInt) :=
  wraps_of_toInt_eq (Int64.toInt_div n m)

/-- Squaring while the exponent is halved gives the power, if each product is wrapped. -/
theorem wraps_wrappedPower (e : Nat) (h : Wraps n x) : Wraps (wrappedPower n e) (x ^ e) := by
  induction e using Nat.strong_induction_on generalizing n x with
  | _ e ih =>
      rw [wrappedPower]
      split
      · next hzero =>
        rw [hzero, pow_zero]
        exact wraps_toInt 1
      · next hpos =>
        have hsquared : Wraps (wrappedPower (n * n) (e / 2)) ((x * x) ^ (e / 2)) :=
          ih (e / 2) (by omega) (h.mul h)
        have hhalf : (x * x) ^ (e / 2) = x ^ (2 * (e / 2)) := by rw [← pow_two, pow_mul]
        simp only
        split
        · next hodd =>
          have hexponent : x * x ^ (2 * (e / 2)) = x ^ e := by
            rw [← pow_succ']
            congr 1
            omega
          rw [← hexponent, ← hhalf]
          exact h.mul hsquared
        · next heven =>
          have hexponent : 2 * (e / 2) = e := by omega
          rwa [hhalf, hexponent] at hsquared

theorem power_of_lt {exponent : Int64} (nonneg : 0 ≤ exponent.toInt) (small : exponent.toInt < 2 ^ 32)
    (base : Int64) : power base exponent = wrappedPower base exponent.toInt.toNat := by
  rw [power, if_pos]
  simp only [isSmallExponent, Bool.and_eq_true, decide_eq_true_eq]
  omega

end Number

/-! ### Operators -/

namespace Operators

open Number

/-- The outcome is a number: the only one that agrees with the integer modulo the 64th power of two. -/
def Yields (outcome : Except RuntimeError Value) (x : Int) : Prop :=
  ∃ n : Int64, outcome = .ok (.number n) ∧ n.toInt ≡ x [ZMOD 2 ^ 64] ∧
    ∀ m : Int64, m.toInt ≡ x [ZMOD 2 ^ 64] → m = n

theorem yields_of_wraps {n : Int64} {x : Int} (h : Wraps n x) : Yields (.ok (.number n)) x :=
  ⟨n, rfl, h, fun _ hm => h.unique hm⟩

variable (a b : Int64)

theorem arithmetic_div_of_ne {b : Int64} (h : b ≠ 0) :
    arithmetic .div a b = .ok (.number (a / b)) ∧ arithmetic .mod a b = .ok (.number (a % b)) := by
  simp only [arithmetic, if_neg h, and_self]

/-- Both divisions fail for a zero, and for nothing else. -/
theorem arithmetic_eq_divisionByZero_iff {op : BinaryOp} (division : op = .div ∨ op = .mod) :
    arithmetic op a b = .error .divisionByZero ↔ b = 0 := by
  rcases division with rfl | rfl
  all_goals
    by_cases hb : b = 0
    · simp [arithmetic, hb]
    · simp [arithmetic, hb]

/-- Quotient and remainder make up the dividend. -/
theorem wraps_div_mul_add_mod : a.toInt ≡ (a / b).toInt * b.toInt + (a % b).toInt [ZMOD 2 ^ 64] := by
  have hquotient : (a / b).toInt ≡ a.toInt.tdiv b.toInt [ZMOD 2 ^ 64] := Wraps.div a b
  have hexact : a.toInt = a.toInt.tdiv b.toInt * b.toInt + (a % b).toInt := by
    rw [Int64.toInt_mod, Int.mul_comm]
    exact (Int.mul_tdiv_add_tmod _ _).symm
  calc a.toInt = a.toInt.tdiv b.toInt * b.toInt + (a % b).toInt := hexact
    _ ≡ (a / b).toInt * b.toInt + (a % b).toInt [ZMOD 2 ^ 64] :=
      (hquotient.symm.mul_right _).add_right _

theorem abs_mod_lt {b : Int64} (h : b ≠ 0) : |(a % b).toInt| < |b.toInt| := by
  have hb : b.toInt.natAbs ≠ 0 := by
    intro hzero
    exact h (Int64.toInt_inj.1 (Int.natAbs_eq_zero.1 hzero))
  rw [Int64.toInt_mod, Int.abs_eq_natAbs, Int.abs_eq_natAbs, Int.natAbs_tmod]
  exact Int.ofNat_lt.2 (Nat.mod_lt _ (Nat.pos_of_ne_zero hb))

/-- A remainder has the sign of the dividend. -/
theorem sign_mod : a % b = 0 ∨ (a % b).toInt.sign = a.toInt.sign := by
  have hsign := Int.sign_tmod a.toInt b.toInt
  rw [← Int64.toInt_mod] at hsign
  split at hsign
  · exact .inl (Int64.toInt_inj.1 (Int.sign_eq_zero_iff_zero.1 hsign))
  · exact .inr hsign

/-- One quotient alone is too large. -/
theorem toInt_div_eq_tdiv (h : ¬(a = Int64.minValue ∧ b = -1)) :
    (a / b).toInt = a.toInt.tdiv b.toInt := by
  by_cases ha : a = Int64.minValue
  · exact Int64.toInt_div_of_ne_right a b fun hb => h ⟨ha, hb⟩
  · exact Int64.toInt_div_of_ne_left a b ha

/-- Operators on numbers are exact modulo the 64th power of two. Sums, differences, products and powers with an
    exponent of at most 32 bits are the only numbers that agree with the exact ones. Division and remainder fail
    only for a zero, and otherwise give a quotient and a remainder that make up the dividend. The remainder is
    smaller than the divisor and has no other sign than the dividend. The quotient is the exact one, cut toward
    zero, but for the one that is too large, which wraps around. -/
theorem arithmetic_exact :
    Yields (binary .add (.number a) (.number b)) (a.toInt + b.toInt) ∧
    Yields (binary .sub (.number a) (.number b)) (a.toInt - b.toInt) ∧
    Yields (binary .mul (.number a) (.number b)) (a.toInt * b.toInt) ∧
    (0 ≤ b.toInt → b.toInt < 2 ^ 32 →
      Yields (binary .pow (.number a) (.number b)) (a.toInt ^ b.toInt.toNat)) ∧
    (binary .div (.number a) (.number b) = .error .divisionByZero ↔ b = 0) ∧
    (binary .mod (.number a) (.number b) = .error .divisionByZero ↔ b = 0) ∧
    (b ≠ 0 → ∃ q r : Int64,
      binary .div (.number a) (.number b) = .ok (.number q) ∧
      binary .mod (.number a) (.number b) = .ok (.number r) ∧
      a.toInt ≡ q.toInt * b.toInt + r.toInt [ZMOD 2 ^ 64] ∧
      |r.toInt| < |b.toInt| ∧
      (r = 0 ∨ r.toInt.sign = a.toInt.sign) ∧
      (a = Int64.minValue ∧ b = -1 → q = Int64.minValue) ∧
      (¬(a = Int64.minValue ∧ b = -1) → q.toInt = a.toInt.tdiv b.toInt)) := by
  constructor
  · exact yields_of_wraps ((wraps_toInt a).add (wraps_toInt b))
  constructor
  · exact yields_of_wraps ((wraps_toInt a).sub (wraps_toInt b))
  constructor
  · exact yields_of_wraps ((wraps_toInt a).mul (wraps_toInt b))
  constructor
  · intro nonneg small
    have hpower := wraps_wrappedPower b.toInt.toNat (wraps_toInt a)
    rw [← power_of_lt nonneg small] at hpower
    exact yields_of_wraps hpower
  constructor
  · exact arithmetic_eq_divisionByZero_iff a b (.inl rfl)
  constructor
  · exact arithmetic_eq_divisionByZero_iff a b (.inr rfl)
  intro hb
  obtain ⟨hdiv, hmod⟩ := arithmetic_div_of_ne a hb
  refine ⟨a / b, a % b, hdiv, hmod, wraps_div_mul_add_mod a b, abs_mod_lt a hb, sign_mod a b, ?_, ?_⟩
  · rintro ⟨rfl, rfl⟩
    exact Int64.minValue_div_neg_one
  · exact toInt_div_eq_tdiv a b

/-- The quotient that wraps around, and a power that does. -/
theorem arithmetic_exact_of_overflow :
    (∃ q : Int64, binary .div (.number Int64.minValue) (.number (-1)) = .ok (.number q) ∧
      q = Int64.minValue) ∧
    Yields (binary .pow (.number (-3)) (.number 41)) ((-3) ^ 41) := by
  obtain ⟨_, _, _, _, _, _, hdivision⟩ := arithmetic_exact Int64.minValue (-1)
  obtain ⟨_, _, _, hpower, _⟩ := arithmetic_exact (-3) 41
  obtain ⟨q, _, hq, _, _, _, _, hwraps, _⟩ := hdivision (by decide)
  exact ⟨⟨q, hq, hwraps ⟨rfl, rfl⟩⟩, hpower (by decide) (by decide)⟩

end Operators

end Kiln
