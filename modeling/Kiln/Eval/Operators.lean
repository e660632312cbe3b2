/-
Module: Kiln.Eval.Operators
Purpose: What operators do to values. Any two values can be compared for equality. Texts can be joined.
  Numbers are 64 bit integers that wrap around; division goes toward zero.
Main exports: Operators.arithmetic, Operators.binary, Operators.unary
-/
import Kiln.Eval.Error
import Kiln.Number.Power

namespace Kiln.Operators

/-- A binary operator on two numbers. -/
def arithmetic (op : BinaryOp) (a b : Int64) : Except RuntimeError Value :=
  match op with
  | .add => .ok (.number (a + b))
  | .sub => .ok (.number (a - b))
  | .mul => .ok (.number (a * b))
  | .div => if b = 0 then .error .divisionByZero else .ok (.number (a / b))
  | .mod => if b = 0 then .error .divisionByZero else .ok (.number (a % b))
  | .pow => .ok (.number (Number.power a b))
  | .less => .ok (.bool (a < b))
  | .greater => .ok (.bool (b < a))
  | .lessEqual => .ok (.bool (a ≤ b))
  | .greaterEqual => .ok (.bool (b ≤ a))
  | .equal => .ok (.bool (a = b))
  | .notEqual => .ok (.bool (a ≠ b))

/-- A binary operator on two values. -/
def binary (op : BinaryOp) (left right : Value) : Except RuntimeError Value :=
  match op, left, right with
  | .equal, _, _ => .ok (.bool (left.same right))
  | .notEqual, _, _ => .ok (.bool (!left.same right))
  | .add, .text a, .text b => .ok (.text (a ++ b))
  | _, .number a, .number b => arithmetic op a b
  | _, _, _ => .error (.invalidOperands op left.kind right.kind)

/-- A unary operator on a value. -/
def unary (op : UnaryOp) (operand : Value) : Except RuntimeError Value :=
  match op, operand with
  | .not, .bool b => .ok (.bool !b)
  | .negate, .number n => .ok (.number (-n))
  | _, _ => .error (.invalidUnaryOperand op operand.kind)

end Kiln.Operators
