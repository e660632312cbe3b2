/-
Module: Kiln.Store.Basic
Purpose: The memory of a running program: scopes with their variables, and objects with their fields.
  Scopes are never removed, and each names the scope around it, which was created before it. A variable
  is found either by searching outward from a scope or by going a known number of scopes outward.
Main exports: Origin, Scope, Store, Store.newScope, Store.put, Store.hop?, Store.owner?, Store.ownerAt?,
  Store.get?, Store.getAt?, Store.assign?, Store.assignAt?, Store.newObject, Store.setField
-/
import Kiln.Value.Basic

namespace Kiln

/-- Variables or fields by name. -/
abbrev Cells := Std.ExtTreeMap String Value

/-- What a scope was opened for. Nothing that runs looks at it; it tells which part of a program the
    variables of the scope belong to. -/
inductive Origin where
  /-- The scope was there before the program. -/
  | outside
  /-- A block is executed. -/
  | block (body : List Stmt)
  /-- A function is called. -/
  | call (function : Function)
  /-- A method is bound to a receiver. -/
  | binding (method : Function)

/-- A scope: what it was opened for, the scope around it, if any, and its variables. -/
structure Scope where
  origin : Origin
  parent : Option ScopeId
  cells : Cells

instance : Inhabited Scope := ⟨⟨.outside, none, ∅⟩⟩

/-- Scopes and objects by their ids, and how many identities have been given out. -/
structure Store where
  scopes : Array Scope
  objects : Array Cells
  identities : Nat

namespace Store

/-- Nothing exists. -/
def empty : Store := ⟨#[], #[], 0⟩

instance : Inhabited Store := ⟨empty⟩

/-! ### Scopes -/

/-- The scope around a scope. -/
def parent? (s : Store) (scope : ScopeId) : Option ScopeId :=
  s.scopes[scope.index]?.bind (·.parent)

/-- The value of a variable of this very scope. -/
def cell? (s : Store) (scope : ScopeId) (name : String) : Option Value :=
  s.scopes[scope.index]?.bind (·.cells[name]?)

/-- Whether this very scope has the variable. -/
def defines (s : Store) (scope : ScopeId) (name : String) : Bool := (s.cell? scope name).isSome

/-- Adds a scope without variables. -/
def newScope (s : Store) (origin : Origin) (parent : Option ScopeId) : ScopeId × Store :=
  (⟨s.scopes.size⟩, { s with scopes := s.scopes.push ⟨origin, parent, ∅⟩ })

/-- Gives a variable of this very scope a value, whether it existed or not. -/
def put (s : Store) (scope : ScopeId) (name : String) (value : Value) : Store :=
  { s with
    scopes := s.scopes.modify scope.index fun sc => { sc with cells := sc.cells.insert name value } }

/-- The scope that lies `distance` scopes further out. -/
def hop? (s : Store) (scope : ScopeId) : Nat → Option ScopeId
  | 0 => some scope
  | distance + 1 => (s.parent? scope).bind fun outer => s.hop? outer distance

/-- The first of at most `steps` scopes, from `scope` outward, that has the variable. -/
def ownerWithin? (s : Store) (name : String) : Nat → ScopeId → Option ScopeId
  | 0, _ => none
  | steps + 1, scope =>
    if s.defines scope name then some scope
    else (s.parent? scope).bind fun outer => s.ownerWithin? name steps outer

/-- The closest scope, from `scope` outward, that has the variable. No way outward is longer than there
    are scopes. -/
def owner? (s : Store) (scope : ScopeId) (name : String) : Option ScopeId :=
  s.ownerWithin? name s.scopes.size scope

/-- The scope `distance` scopes further out, if it has the variable. There is no search. -/
def ownerAt? (s : Store) (scope : ScopeId) (distance : Nat) (name : String) : Option ScopeId :=
  (s.hop? scope distance).filter fun target => s.defines target name

/-- The value of a variable that is found by search. -/
def get? (s : Store) (scope : ScopeId) (name : String) : Option Value :=
  (s.owner? scope name).bind fun target => s.cell? target name

/-- The value of a variable at a known distance. -/
def getAt? (s : Store) (scope : ScopeId) (distance : Nat) (name : String) : Option Value :=
  (s.ownerAt? scope distance name).bind fun target => s.cell? target name

/-- Writes to a variable that is found by search. -/
def assign? (s : Store) (scope : ScopeId) (name : String) (value : Value) : Option Store :=
  (s.owner? scope name).map fun target => s.put target name value

/-- Writes to a variable at a known distance. -/
def assignAt? (s : Store) (scope : ScopeId) (distance : Nat) (name : String) (value : Value) :
    Option Store :=
  (s.ownerAt? scope distance name).map fun target => s.put target name value

/-! ### Objects and identities -/

/-- Adds an object without fields. -/
def newObject (s : Store) : ObjectId × Store :=
  (⟨s.objects.size⟩, { s with objects := s.objects.push ∅ })

/-- The fields of an object. -/
def fields (s : Store) (object : ObjectId) : Cells := s.objects[object.index]?.getD ∅

/-- Gives a field of an object a value, whether it existed or not. -/
def setField (s : Store) (object : ObjectId) (name : String) (value : Value) : Store :=
  { s with objects := s.objects.modify object.index fun cells => cells.insert name value }

/-- Gives out an identity that nothing has yet. -/
def newIdentity (s : Store) : Identity × Store :=
  (⟨s.identities⟩, { s with identities := s.identities + 1 })

/-! ### What exists before any program -/

/-- The version of the language, which programs can read. -/
def version : String := "0.0.1"

/-- Adds an outermost scope with the built-in function and the version. -/
def newBuiltins (s : Store) : ScopeId × Store :=
  let (identity, s) := s.newIdentity
  let (scope, s) := s.newScope .outside none
  (scope, (s.put scope "print" (.builtin .print identity)).put scope "VERSION" (.text version))

end Store

end Kiln
