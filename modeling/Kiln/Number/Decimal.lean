/-
Module: Kiln.Number.Decimal
Purpose: Reading and writing 64 bit signed integers in decimal.
Main exports: Decimal.read?, Decimal.write
-/

namespace Kiln.Decimal

/-- The value of a decimal digit. -/
def digit? (c : Char) : Option Nat :=
  if '0' ≤ c ∧ c ≤ '9' then some (c.toNat - '0'.toNat) else none

/-- The number that the digits write, read on from the value `acc` of those before. -/
def digitsFrom? (acc : Nat) : List Char → Option Nat
  | [] => some acc
  | c :: rest => (digit? c).bind fun d => digitsFrom? (10 * acc + d) rest

/-- The number that a nonempty run of decimal digits writes. -/
def digits? : List Char → Option Nat
  | [] => none
  | text => digitsFrom? 0 text

/-- The integer that digits after an optional sign write. -/
def signed? : List Char → Option Int
  | '-' :: digits => (digits? digits).map fun n => -(n : Int)
  | '+' :: digits => (digits? digits).map fun n => (n : Int)
  | digits => (digits? digits).map fun n => (n : Int)

/-- Whether a 64 bit signed integer can hold `n`. -/
def fits (n : Int) : Bool := -9223372036854775808 ≤ n && n ≤ 9223372036854775807

/-- The 64 bit integer that `text` writes: decimal digits after an optional sign, within the range of
    such integers. -/
def read? (text : String) : Option Int64 :=
  ((signed? text.toList).filter fits).map Int64.ofInt

/-- The decimal form of `n`, with a minus sign when it is negative. -/
def write (n : Int64) : String := toString n.toInt

end Kiln.Decimal
