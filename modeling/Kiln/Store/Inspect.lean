/-
Module: Kiln.Store.Inspect
Purpose: The debugging form of a value, which names its kind and shows the fields of instances.
Main exports: Store.inspect, Store.debug
-/
import Kiln.Store.Basic
import Kiln.Text.Quoted

namespace Kiln.Store

open Kiln.Text

/-- The debugging form of a value. Instances are opened up to `depth` levels deep, since their fields
    may lead back to them; deeper ones are shown by their text. Fields come in the order of their
    names. -/
def inspect (s : Store) : Nat → Value → String
  | _, .text t => "String(" ++ quoted t ++ ")"
  | _, .number n => "Number(" ++ Decimal.write n ++ ")"
  | _, .bool b => "Bool(" ++ Value.display (.bool b) ++ ")"
  | depth + 1, .object c object =>
    let fields := (s.fields object).toList.map fun (name, value) =>
      quoted name ++ ": " ++ s.inspect depth value
    "Instance of " ++ c.name ++ " \x7b" ++ ", ".intercalate fields ++ "\x7d"
  | _, v => v.display

/-- The debugging form of a value, with every instance opened that can be reached without passing through
    one twice. -/
def debug (s : Store) (value : Value) : String := s.inspect s.objects.size value

end Kiln.Store
