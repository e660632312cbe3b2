/-
Module: Kiln.Interpreter
Purpose: A running interpreter. It keeps its globals, its memory, its output and the distances of all
  references it has ever been given, so that functions of earlier programs can still be called.
Main exports: Interpreter, Interpreter.new, Interpreter.run
-/
import Kiln.Eval.Evaluate

namespace Kiln

/-- The state that lasts from one program to the next. -/
structure Interpreter where
  world : World
  /-- The scope of top-level statements. It lies inside the scope of what is built in, so that a program
      can give those names other meanings. -/
  globals : ScopeId
  annotations : Annotations

namespace Interpreter

/-- An interpreter that has run nothing yet. -/
def new (sink : Sink) : Interpreter :=
  let (builtins, store) := Store.empty.newBuiltins
  let (globals, store) := store.newScope .outside (some builtins)
  ⟨⟨store, sink⟩, globals, .empty⟩

instance : Inhabited Interpreter := ⟨new default⟩

/-- How the interpreter finds variables. -/
def finder (i : Interpreter) : Finder := .lexical i.globals i.annotations

/-- Adds distances of references to those known. -/
def learn (i : Interpreter) (annotations : Annotations) : Interpreter :=
  { i with annotations := i.annotations.extend annotations }

/-- Runs a program with the distances of its references: one value for each top-level statement, or the
    place and cause of the first failure. What the program did before failing stays done. -/
def run (fuel : Nat) (i : Interpreter) (program : Program) (annotations : Annotations) :
    Except (Located Halt) (List Value) × Interpreter :=
  let i := i.learn annotations
  match Evaluate.program i.finder fuel i.globals program i.world with
  | .ok values world => (.ok values, { i with world := world })
  | .error e world => (.error e, { i with world := world })

end Interpreter

end Kiln
