/-
Module: Kiln.Session
Purpose: A session: source texts are read, checked and run one after the other on one interpreter. A text
  that is rejected before it runs leaves nothing behind but the ids its references have used up.
Main exports: Problem, Problem.line, Problem.message, Problem.report, Session, Session.read,
  Session.run, Session.submit
-/
import Kiln.Interpreter
import Kiln.Parser.Grammar
import Kiln.Scoping.Analysis
import Kiln.Token.Lexer

namespace Kiln

open Kiln.Text

/-- Why a source text does not run to its end. -/
inductive Problem where
  | lexing (e : Located LexError)
  | parsing (e : Located ParseError)
  | resolving (e : Located ResolveError)
  | running (e : Located RuntimeError)
  /-- The bound on evaluation was used up in the statement on this line. -/
  | unfinished (line : Nat)
deriving DecidableEq, Repr, Inhabited

namespace Problem

/-- The line on which a problem is reported, counted from 0. -/
def line : Problem → Nat
  | .lexing e => e.line
  | .parsing e => e.line
  | .resolving e => e.line
  | .running e => e.line
  | .unfinished line => line

/-- The message for a problem. -/
def message (palette : Palette) : Problem → String
  | .lexing e => e.value.message palette
  | .parsing e => e.value.message palette
  | .resolving e => e.value.message palette
  | .running e => e.value.message palette
  | .unfinished _ => palette.errorWord ++ " evaluation was given up"

/-- How a problem is shown. -/
def report (palette : Palette) (p : Problem) : String :=
  Kiln.report palette p.line (p.message palette)

/-- The problem for a run that stopped early. -/
def ofHalt (e : Located Halt) : Problem :=
  match e.value with
  | .failed cause => .running ⟨e.line, cause⟩
  | .outOfFuel => .unfinished e.line

end Problem

/-- The state that lasts from one source text to the next. -/
structure Session where
  interpreter : Interpreter
  /-- How many ids have been drawn. -/
  drawn : Nat

namespace Session

/-- A session in which nothing has happened. -/
def new (sink : Sink) : Session := ⟨.new sink, 0⟩

instance : Inhabited Session := ⟨new default⟩

/-- Everything printed so far. -/
def output (s : Session) : ByteArray := s.interpreter.world.sink.written

/-- Reads a source text as a program. -/
def read (s : Session) (source : String) : Except Problem Program × Session :=
  match tokenize source with
  | .error e => (.error (.lexing e), s)
  | .ok tokens =>
    let p := parse tokens s.drawn
    (p.result.mapError .parsing, { s with drawn := p.drawn })

/-- Checks a program before it runs. -/
def check (program : Program) : Except Problem Annotations :=
  (resolve program).mapError .resolving

/-- Runs a program with the distances of its references. -/
def run (fuel : Nat) (s : Session) (program : Program) (annotations : Annotations) :
    Except Problem (List Value) × Session :=
  let (result, interpreter) := s.interpreter.run fuel program annotations
  (result.mapError .ofHalt, { s with interpreter := interpreter })

/-- Checks and runs a program. -/
def execute (fuel : Nat) (s : Session) (program : Program) : Except Problem (List Value) × Session :=
  match check program with
  | .error p => (.error p, s)
  | .ok annotations => s.run fuel program annotations

/-- Reads, checks and runs a source text. All of it is checked before its first statement runs. -/
def submit (fuel : Nat) (s : Session) (source : String) : Except Problem (List Value) × Session :=
  match s.read source with
  | (.error p, s) => (.error p, s)
  | (.ok program, s) => s.execute fuel program

end Session

end Kiln
