/-
Module: Kiln.Value.Basic
Purpose: The values that programs compute. Numbers, texts and truth values are what they are; functions,
  classes and instances have an identity, by which alone they are compared. The fields of an instance
  live in the store, so that all copies of the value share them.
Main exports: ScopeId, ObjectId, Identity, Closure, Class, Value, ValueKind, Value.same, Value.display
-/
import Std.Data.ExtTreeMap
import Kiln.Number.Decimal
import Kiln.Tree.Basic

namespace Kiln

open Kiln.Text

/-- The place of a scope in the store. -/
structure ScopeId where
  index : Nat
deriving DecidableEq, Repr, Inhabited

/-- The place of an object's fields in the store. -/
structure ObjectId where
  index : Nat
deriving DecidableEq, Repr, Inhabited

/-- What tells apart two functions or two classes that look alike. -/
structure Identity where
  index : Nat
deriving DecidableEq, Repr, Inhabited

/-- A function together with the scope in which it was created. -/
structure Closure where
  identity : Identity
  function : Function
  scope : ScopeId

/-- A class: its methods by name, and the scope in which it was declared. -/
structure Class where
  identity : Identity
  name : String
  methods : Std.ExtTreeMap String Function
  scope : ScopeId

/-- The functions that exist before any program. -/
inductive Builtin where
  | print
deriving DecidableEq, Repr, Inhabited

/-- The name of a built-in function. -/
def Builtin.name : Builtin → String
  | .print => "print"

/-- Values. -/
inductive Value where
  | void
  | number (n : Int64)
  | text (s : String)
  | bool (b : Bool)
  | closure (c : Closure)
  | builtin (f : Builtin) (identity : Identity)
  | classValue (c : Class)
  | object (c : Class) (id : ObjectId)

instance : Inhabited Value := ⟨.void⟩

/-- The kinds of values that programs and messages tell apart. -/
inductive ValueKind where
  | void
  | number
  | text
  | bool
  | function
  | classKind
  | instanceKind
deriving DecidableEq, Repr, Inhabited

/-- The name of a kind of values. -/
def ValueKind.name : ValueKind → String
  | .void => "void"
  | .number => "number"
  | .text => "string"
  | .bool => "bool"
  | .function => "function"
  | .classKind => "class"
  | .instanceKind => "instance"

/-- The class whose methods are those of `functions`. Of two methods with one name the later counts. -/
def Class.ofFunctions (identity : Identity) (name : String) (functions : List Function)
    (scope : ScopeId) : Class :=
  ⟨identity, name, functions.foldl (fun table f => table.insert f.displayName f) ∅, scope⟩

namespace Value

/-- The kind of a value. -/
def kind : Value → ValueKind
  | .void => .void
  | .number _ => .number
  | .text _ => .text
  | .bool _ => .bool
  | .closure _ | .builtin _ _ => .function
  | .classValue _ => .classKind
  | .object _ _ => .instanceKind

/-- Whether a value carries no information. -/
def isVoid : Value → Bool
  | .void => true
  | _ => false

/-- Equality of values: numbers, texts and truth values by content, all others by identity. -/
def same : Value → Value → Bool
  | .void, .void => true
  | .number a, .number b => a == b
  | .text a, .text b => a == b
  | .bool a, .bool b => a == b
  | .closure a, .closure b => a.identity == b.identity
  | .builtin _ a, .builtin _ b => a == b
  | .classValue a, .classValue b => a.identity == b.identity
  | .object _ a, .object _ b => a == b
  | _, _ => false

/-- The text of a value, as `print` writes it. -/
def display : Value → String
  | .void => "void"
  | .number n => Decimal.write n
  | .text s => s
  | .bool true => "true"
  | .bool false => "false"
  | .closure c => "<function " ++ c.function.displayName ++ ">"
  | .builtin f _ => "<native function " ++ f.name ++ ">"
  | .classValue c => "<class " ++ c.name ++ ">"
  | .object c _ => "<instance of " ++ c.name ++ ">"

/-- The text of a value, as an interactive session echoes it: coloured by kind, and texts between
    quotes. -/
def echo (palette : Palette) : Value → String
  | .number n => palette.paint .yellow (Decimal.write n)
  | .bool b => palette.paint .yellow (Value.display (.bool b))
  | .text s => palette.paint .green ("\"" ++ s ++ "\"")
  | .void => palette.paint .dimmed (Value.display .void)
  | v => palette.paint .blue v.display

end Value

end Kiln
