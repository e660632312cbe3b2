/-
Module: Kiln.Number.Power
Purpose: Powers of 64 bit signed integers. An exponent that is a 32 bit natural number gives the exact
  power, wrapped to 64 bits. Any other exponent is handled in double precision: base and exponent are
  rounded to doubles, and the power is cut to an integer and clamped to the range of 64 bits. For such
  exponents the outcome depends on very little, so it is given here case by case.
Main exports: Number.wrappedPower, Number.clampedPower, Number.power
-/

namespace Kiln.Number

/-- The power by repeated squaring, each product wrapped to 64 bits. -/
def wrappedPower (base : Int64) (exponent : Nat) : Int64 :=
  if exponent = 0 then 1
  else
    let squared := wrappedPower (base * base) (exponent / 2)
    if exponent % 2 = 1 then base * squared else squared
termination_by exponent
decreasing_by omega

/-- Whether an exponent is odd after it is rounded to a double. From 2 to the 53rd on, doubles are even. -/
def isOddDouble (exponent : Int64) : Bool :=
  exponent.toInt.natAbs < 9007199254740992 && exponent.toInt % 2 != 0

/-- The power for an exponent that is negative or has more than 32 bits. A base of magnitude two or more then
    gives a fraction, which is cut to zero, or overflows to an infinity, which is clamped. -/
def clampedPower (base exponent : Int64) : Int64 :=
  if base = 0 then (if exponent < 0 then Int64.maxValue else 0)
  else if base = 1 then 1
  else if base = -1 then (if isOddDouble exponent then -1 else 1)
  else if exponent < 0 then 0
  else if base < 0 && isOddDouble exponent then Int64.minValue
  else Int64.maxValue

/-- Whether an exponent is a natural number of at most 32 bits. -/
def isSmallExponent (exponent : Int64) : Bool :=
  0 ≤ exponent.toInt && exponent.toInt ≤ 4294967295

/-- The power of two 64 bit integers. -/
def power (base exponent : Int64) : Int64 :=
  if isSmallExponent exponent then wrappedPower base exponent.toInt.toNat
  else clampedPower base exponent

end Kiln.Number
