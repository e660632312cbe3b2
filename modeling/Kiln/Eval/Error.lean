/-
Module: Kiln.Eval.Error
Purpose: Why a running program fails, and the messages for it.
Main exports: BuiltinError, RuntimeError, RuntimeError.message
-/
import Kiln.Value.Basic

namespace Kiln

open Kiln.Text

/-- Why a built-in function fails. -/
inductive BuiltinError where
  /-- The output of `function` could not be written. -/
  | output (function reason : String)
deriving DecidableEq, Repr, Inhabited

/-- The message for a failed built-in function. -/
def BuiltinError.message : BuiltinError → String
  | .output function reason => "Function " ++ function ++ ": can't write output: " ++ reason

/-- Why a running program fails. -/
inductive RuntimeError where
  /-- A reference finds no variable of its name. -/
  | undefinedVariable (name : String) (reference : NodeId)
  | undefinedProperty (name : String)
  /-- A field is looked up in, or written to, something that is no instance. -/
  | notAnInstance (found : ValueKind)
  | notCallable (found : ValueKind)
  | arityMismatch (name : String) (expected found : Nat)
  | builtin (cause : BuiltinError)
  | invalidOperands (op : BinaryOp) (left right : ValueKind)
  | nonBooleanOperand (op : LogicalOp) (found : ValueKind)
  | invalidUnaryOperand (op : UnaryOp) (found : ValueKind)
  | divisionByZero
  | nonBooleanCondition (found : ValueKind)
deriving DecidableEq, Repr, Inhabited

/-- The message for a name without a variable. -/
def undefinedMessage (palette : Palette) (name : String) : String :=
  palette.errorWord ++ " undefined variable: " ++ name

/-- The message for a failed run. -/
def RuntimeError.message (palette : Palette) : RuntimeError → String
  | .undefinedVariable name _ => undefinedMessage palette name
  | .undefinedProperty name => palette.errorWord ++ " undefined property: " ++ name
  | .notAnInstance found =>
    palette.errorWord ++ " only instances have properties, found: " ++ found.name
  | .notCallable found =>
    palette.errorWord ++ " value of type " ++ found.name ++ " is not callable"
  | .arityMismatch name expected found =>
    palette.errorWord ++ " during '" ++ name ++ "' call: expected " ++ toString expected
      ++ " arguments but found " ++ toString found
  | .builtin cause => cause.message
  | .invalidOperands op left right =>
    palette.errorWord ++ " operator " ++ op.text ++ " can't be applied to " ++ left.name ++ " and "
      ++ right.name
  | .nonBooleanOperand op found =>
    palette.errorWord ++ " operator " ++ op.text ++ " expects bool operands, found: " ++ found.name
  | .invalidUnaryOperand op found =>
    palette.errorWord ++ " unary operator " ++ op.text ++ " can't be applied to " ++ found.name
  | .divisionByZero => palette.errorWord ++ " division by zero"
  | .nonBooleanCondition found =>
    palette.errorWord ++ " condition must be a bool, found: " ++ found.name

end Kiln
