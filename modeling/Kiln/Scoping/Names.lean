/-
Module: Kiln.Scoping.Names
Purpose: The names that are in scope at a point of a program, while the scope analysis walks over it.
  The names of each open scope are kept apart, those of the top level apart from all others: top-level
  names are bound when a program runs, not before it.
Main exports: ResolveError, NameTable, FunctionKind, Names, Resolver, Names.distance?, Resolver.declare,
  Resolver.define, Resolver.locate, Resolver.inScope, Resolver.inFunction
-/
import Kiln.Scoping.Annotations

namespace Kiln

open Kiln.Text

/-- Why a program is rejected before it runs. -/
inductive ResolveError where
  /-- A name is declared twice in one scope. -/
  | duplicateDeclaration (name : String)
  /-- A variable is read while its own first value is computed. -/
  | selfReference (name : String)
  | returnOutsideFunction
deriving DecidableEq, Repr, Inhabited

/-- The message for a rejected program. -/
def ResolveError.message (palette : Palette) (e : ResolveError) : String :=
  palette.errorWord ++ match e with
  | .duplicateDeclaration name => " variable -" ++ name ++ "- is already declared in this scope"
  | .selfReference name => " can't read variable -" ++ name ++ "- in its own initializer"
  | .returnOutsideFunction =>
    " " ++ palette.paint .cyan "return" ++ " outside of a function or a method"

/-- The names of one scope. A name is marked `false` while its first value is still being computed, and
    `true` from then on. -/
abbrev NameTable := Std.ExtTreeMap String Bool

/-- The kinds of functions in whose bodies a point of a program can lie. -/
inductive FunctionKind where
  /-- A declared function or an unnamed one. -/
  | function
  /-- A function of a class. -/
  | method
deriving DecidableEq, Repr, Inhabited

/-- The names of all scopes around a point of a program. -/
structure Names where
  /-- The scopes inside the top level, the innermost first. -/
  locals : List NameTable
  topLevel : NameTable
  /-- The kind of the innermost function in whose body the point lies, if there is one. -/
  enclosing : Option FunctionKind
  /-- The distances found so far. -/
  found : Annotations

namespace Names

/-- The start of a program: nothing is declared. -/
def initial : Names := ⟨[], ∅, none, .empty⟩

/-- The names of the innermost scope. -/
def innermost (n : Names) : NameTable := n.locals.headD n.topLevel

/-- Marks a name in the innermost scope. -/
def mark (n : Names) (name : String) (ready : Bool) : Names :=
  match n.locals with
  | [] => { n with topLevel := n.topLevel.insert name ready }
  | scope :: outer => { n with locals := scope.insert name ready :: outer }

/-- How many scopes out from the innermost one a name is first found, the top level excepted. -/
def distance? (n : Names) (name : String) : Option Nat :=
  n.locals.findIdx? (fun scope => scope.contains name)

/-- Opens a scope without names. -/
def push (n : Names) : Names := { n with locals := ∅ :: n.locals }

/-- Closes the innermost scope. -/
def pop (n : Names) : Names := { n with locals := n.locals.tail }

end Names

/-- A step of the scope analysis. It keeps what it found also when it fails. -/
abbrev Resolver := EStateM ResolveError Names

namespace Resolver

/-- Declares a name that is not ready to be read. -/
def declare (name : String) : Resolver Unit := do
  if (← get).innermost.contains name then throw (.duplicateDeclaration name)
  modify (·.mark name false)

/-- Makes a name ready to be read. -/
def define (name : String) : Resolver Unit := modify (·.mark name true)

/-- Declares a name that is ready at once. -/
def introduce (name : String) : Resolver Unit := do
  declare name
  define name

/-- Notes the distance of a reference, if its name is bound inside some scope. -/
def locate (id : NodeId) (name : String) : Resolver Unit :=
  modify fun n =>
    match n.distance? name with
    | none => n
    | some distance => { n with found := n.found.record id distance }

/-- Fails if the name is declared in the innermost scope but not ready. -/
def refuseSelfReference (name : String) : Resolver Unit := do
  if (← get).innermost[name]? = some false then throw (.selfReference name)

/-- Runs a step between `enter` and `leave`. The step's failure does not keep it from leaving. -/
def around (enter : Names → Names) (leave : Names → Names → Names) (step : Resolver Unit) :
    Resolver Unit := fun n =>
  match step (enter n) with
  | .ok () m => .ok () (leave n m)
  | .error e m => .error e (leave n m)

/-- Runs a step in a new scope. -/
def inScope (step : Resolver Unit) : Resolver Unit :=
  around Names.push (fun _ m => m.pop) step

/-- Runs a step in the new scope of a function of the given kind. -/
def inFunction (kind : FunctionKind) (step : Resolver Unit) : Resolver Unit :=
  around (fun n => { n with enclosing := some kind })
    (fun n m => { m with enclosing := n.enclosing }) (inScope step)

end Resolver

end Kiln
