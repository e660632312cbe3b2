/-
Module: Kiln.Eval.Basic
Purpose: The steps from which evaluation is built. A step works on a world: the memory of the program
  and its output. What it did to the world stays done when a later step fails. How variables are found
  is a parameter: programs run with the distances of the scope analysis, and can be compared with a
  search outward from the current scope.
Main exports: World, Halt, Eval, Finder, Finder.lexical, Finder.walking, Completion, Eval.read,
  Eval.write, Eval.bind, Eval.callBuiltin
-/
import Kiln.Eval.Operators
import Kiln.Scoping.Annotations
import Kiln.Sink
import Kiln.Store.Basic

namespace Kiln

/-- All that a running program can change. -/
structure World where
  store : Store
  sink : Sink

instance : Inhabited World := ⟨⟨.empty, default⟩⟩

/-- Why evaluation stops before its end. -/
inductive Halt where
  /-- The program fails. -/
  | failed (cause : RuntimeError)
  /-- The bound on the depth of evaluation is used up, so nothing is known about the program. -/
  | outOfFuel
deriving DecidableEq, Repr, Inhabited

/-- A step of evaluation. -/
abbrev Eval := EStateM Halt World

/-- How a statement ends: it runs to its end, or a `return` leaves everything around it up to the
    call. -/
inductive Completion where
  | normal (value : Value)
  | returned (value : Value)

/-- The value of a completion. -/
def Completion.value : Completion → Value
  | .normal v => v
  | .returned v => v

/-! ### Finding variables -/

/-- How the scope that holds a variable is found, from the scope in which a reference is evaluated, the
    name, and the id of the reference. -/
abbrev Finder := Store → ScopeId → String → NodeId → Option ScopeId

/-- A reference with a distance is looked for exactly there; any other one is searched from the
    globals outward. -/
def Finder.lexical (globals : ScopeId) (annotations : Annotations) : Finder :=
  fun s scope name id =>
    match annotations.get? id with
    | some distance => s.ownerAt? scope distance name
    | none => s.owner? globals name

/-- Every reference is searched from the current scope outward. -/
def Finder.walking : Finder := fun s scope name _ => s.owner? scope name

namespace Eval

/-- Fails with a cause. -/
def fail {α : Type} (cause : RuntimeError) : Eval α := throw (.failed cause)

/-- Takes over a result that does not depend on the world. -/
def ofExcept {α : Type} : Except RuntimeError α → Eval α
  | .ok a => return a
  | .error cause => fail cause

/-- The value of a variable. -/
def read (find : Finder) (scope : ScopeId) (name : String) (id : NodeId) : Eval Value := fun w =>
  match (find w.store scope name id).bind fun target => w.store.cell? target name with
  | some value => .ok value w
  | none => .error (.failed (.undefinedVariable name id)) w

/-- Writes to a variable that exists. -/
def write (find : Finder) (scope : ScopeId) (target : Variable) (value : Value) : Eval Unit := fun w =>
  match find w.store scope target.name target.id with
  | some owner => .ok () { w with store := w.store.put owner target.name value }
  | none => .error (.failed (.undefinedVariable target.name target.id)) w

/-! ### Scopes, objects and functions -/

/-- Declares a variable in this very scope, or gives it a new value there. -/
def define (scope : ScopeId) (name : String) (value : Value) : Eval Unit :=
  modify fun w => { w with store := w.store.put scope name value }

/-- Declares variables one after the other. -/
def defineAll (scope : ScopeId) : List (String × Value) → Eval Unit
  | [] => return ()
  | (name, value) :: rest => do
    define scope name value
    defineAll scope rest

/-- A new scope inside `parent`. -/
def newScope (origin : Origin) (parent : ScopeId) : Eval ScopeId :=
  modifyGet fun w =>
    let (scope, store) := w.store.newScope origin (some parent)
    (scope, { w with store := store })

/-- A new object without fields. -/
def newObject : Eval ObjectId :=
  modifyGet fun w =>
    let (object, store) := w.store.newObject
    (object, { w with store := store })

/-- Gives a field of an object a value. -/
def setField (object : ObjectId) (name : String) (value : Value) : Eval Unit :=
  modify fun w => { w with store := w.store.setField object name value }

/-- An identity that nothing has yet. -/
def newIdentity : Eval Identity :=
  modifyGet fun w =>
    let (identity, store) := w.store.newIdentity
    (identity, { w with store := store })

/-- A function that remembers the scope in which it was created. -/
def newClosure (function : Function) (scope : ScopeId) : Eval Closure := do
  return ⟨← newIdentity, function, scope⟩

/-- The method as a function of its own. A scope in which `this` is the receiver lies between the scope
    of the class and those of the calls. -/
def bind (c : Class) (method : Function) (receiver : Value) : Eval Closure := do
  let scope ← newScope (.binding method) c.scope
  define scope "this" receiver
  newClosure method scope

/-- A member of an instance: a field, or else a method bound to the instance. -/
def property (object : Value) (name : String) : Eval Value := do
  match object with
  | .object c id =>
    match ((← get).store.fields id)[name]? with
    | some value => return value
    | none =>
      match c.methods[name]? with
      | some method => return .closure (← bind c method object)
      | none => fail (.undefinedProperty name)
  | _ => fail (.notAnInstance object.kind)

/-! ### Output -/

/-- Writes text to the output. What does not fit is lost, and the step fails. -/
def emit (function text : String) : Eval Unit := fun w =>
  let bytes := text.toUTF8
  let complete := w.sink.takes bytes.size
  let w := { w with sink := w.sink.write bytes }
  if complete then .ok () w
  else .error (.failed (.builtin (.output function "sink full"))) w

/-- Calls a built-in function. The one there is writes its arguments on a line, with spaces between. -/
def callBuiltin (f : Builtin) (args : List Value) : Eval Value :=
  match f with
  | .print => do
    emit f.name (" ".intercalate (args.map Value.display) ++ "\n")
    return .void

end Eval

end Kiln
