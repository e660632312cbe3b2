/-
Module: Kiln.CommandLine.Shell
Purpose: The command as a state that is fed a script and then lines, and whose output grows. Everything
  the command shows, and everything programs print, goes to the one output in the order in which it
  happens.
Main exports: Shell, Shell.start, Shell.runFile, Shell.startInteractive, Shell.feed, Transcript,
  transcript
-/
import Kiln.CommandLine.FileTree
import Kiln.CommandLine.Options
import Kiln.Session
import Kiln.Text.Blank
import Kiln.Text.Utf8
import Kiln.Tree.Outline

namespace Kiln

open Kiln.Text

/-- A running command. -/
structure Shell where
  options : Options
  palette : Palette
  session : Session

namespace Shell

/-- A bound on evaluation that no run reaches in practice. -/
def ample : Nat := 1000000000000000000

/-- Shows text. -/
def say (sh : Shell) (text : String) : Shell :=
  let session := sh.session
  let i := session.interpreter
  let world := { i.world with sink := i.world.sink.write text.toUTF8 }
  { sh with session := { session with interpreter := { i with world := world } } }

/-- Shows a line of text. -/
def sayLine (sh : Shell) (text : String) : Shell := sh.say (text ++ "\n")

/-- A new command, after its greeting. -/
def start (options : Options) (palette : Palette) : Shell :=
  (Shell.mk options palette (.new (.new none))).sayLine
    ("\n       --- " ++ palette.paint .boldCyan "Kiln" ++ " language v" ++ Store.version ++ " ---")

/-- Shows the outline of a program if that is asked for. -/
def sayOutline (sh : Shell) (program : Program) : Shell :=
  if sh.options.outline then
    sh.sayLine ("\nProgram AST:\n" ++ (Outline.ofProgram program).render)
  else sh

/-- Shows the distances of references if that is asked for. -/
def sayResolutions (sh : Shell) (annotations : Annotations) : Shell :=
  if sh.options.resolutions then
    annotations.toList.foldl
      (fun sh (id, distance) =>
        sh.sayLine ("  " ++ sh.palette.paint .cyan ("#" ++ toString id.index) ++ " -> "
          ++ toString distance))
      (sh.sayLine "\nResolutions:")
  else sh

/-- Shows a problem. -/
def sayProblem (sh : Shell) (p : Problem) : Shell := sh.sayLine (p.report sh.palette)

/-- Reads, checks and runs a source text and shows what was asked for on the way: the values, or the
    problem, which is shown already. -/
def interpret (fuel : Nat) (sh : Shell) (source : String) : Option (List Value) × Shell :=
  match sh.session.read source with
  | (.error p, session) => (none, ({ sh with session := session }).sayProblem p)
  | (.ok program, session) =>
    let sh := ({ sh with session := session }).sayOutline program
    match Session.check program with
    | .error p => (none, sh.sayProblem p)
    | .ok annotations =>
      let sh := sh.sayResolutions annotations
      match sh.session.run fuel program annotations with
      | (.error p, session) => (none, ({ sh with session := session }).sayProblem p)
      | (.ok values, session) => (some values, { sh with session := session })

/-- Runs a script, given its bytes or the reason for not reading them: the exit status if the command ends
    there. -/
def runFile (fuel : Nat) (sh : Shell) (name : String) (content : Except FileError ByteArray) :
    Option Nat × Shell :=
  let sh := sh.sayLine ("\nReading source file " ++ sh.palette.paint .green name ++ "...")
  let source := content.bind fun bytes =>
    match decode? bytes with
    | some text => .ok text
    | none => .error .notText
  match source with
  | .error e =>
    (some 1,
      sh.sayLine (sh.palette.errorWord ++ " opening script file " ++ name ++ ": " ++ e.message))
  | .ok text =>
    match sh.interpret fuel text with
    | (some _, sh) => (none, sh)
    | (none, sh) => (some 1, sh)

/-- Asks for a line. -/
def prompt (sh : Shell) : Shell := sh.say "\n> "

/-- Begins to take lines. -/
def startInteractive (sh : Shell) : Shell :=
  (sh.sayLine ("\n" ++ sh.palette.paint .boldYellow "Interactive" ++ " mode started")).prompt

/-- Shows the values of a line that carry information. -/
def echo (sh : Shell) (values : List Value) : Shell :=
  (values.filter (fun v => !v.isVoid)).foldl (fun sh v => sh.sayLine (v.echo sh.palette)) sh

/-- Takes a line without the white space around it, or the end of the input: the exit status if the
    command ends there. Problems do not end it. -/
def feed (fuel : Nat) (sh : Shell) (line : Option ByteArray) : Option Nat × Shell :=
  match line with
  | none => (some 0, sh)
  | some bytes =>
    match decode? bytes with
    | none =>
      (some 1,
        sh.sayLine (sh.palette.errorWord ++ " reading from terminal: " ++ FileError.notText.message))
    | some text =>
      let source := trim text
      if source = "quit" then (some 0, sh)
      else
        match sh.interpret fuel source with
        | (some values, sh) => (none, (sh.echo values).prompt)
        | (none, sh) => (none, sh.prompt)

/-- Takes lines up to the end of the command: its exit status. -/
def feedAll (fuel : Nat) (sh : Shell) : List ByteArray → Nat × Shell
  | [] =>
    match sh.feed fuel none with
    | (status, sh) => (status.getD 0, sh)
  | line :: rest =>
    match sh.feed fuel (some line) with
    | (some status, sh) => (status, sh)
    | (none, sh) => sh.feedAll fuel rest

end Shell

/-! ### Whole runs of the command -/

/-- What a run of the command leaves behind. -/
structure Transcript where
  output : ByteArray
  status : Nat

/-- How the command is used. -/
def helpText : String :=
  "Interpreter for the Kiln scripting language\n\nUsage: kiln [OPTIONS]\n\nOptions:\n" ++
  "  -f, --file <FILE>  Path to the script to run\n" ++
  "  -i, --inter        Interactive mode after running a file\n" ++
  "  -a, --ast-print    Prints the AST tree\n" ++
  "  -r, --resolutions  Prints the resolved lexical distance of each variable reference\n" ++
  "  -h, --help         Print help\n" ++
  "  -V, --version      Print version\n"

/-- The name and version of the command. -/
def versionText : String := "kiln 0.1.0\n"

/-- The lines of an input, each with its line feed. What follows the last line feed is a line too, unless
    it is empty. -/
def inputLines (bytes : List UInt8) : List (List UInt8) :=
  match bytes.foldr step ([], []) with
  | ([], lines) => lines
  | (line, lines) => line :: lines
where
  /-- Puts one more byte before the line that is being collected, which starts anew at each line feed. -/
  step (b : UInt8) (collected : List UInt8 × List (List UInt8)) : List UInt8 × List (List UInt8) :=
    match collected with
    | (line, lines) =>
      if b = 10 then ([b], if line.isEmpty then lines else line :: lines) else (b :: line, lines)

/-- Runs the command on arguments, readable files and the bytes of its input. -/
def transcript (fuel : Nat) (palette : Palette) (arguments : List String)
    (readFile : String → Except FileError ByteArray) (input : ByteArray) : Transcript :=
  match Invocation.ofArguments arguments with
  | .usageError => ⟨.empty, 2⟩
  | .help => ⟨helpText.toUTF8, 0⟩
  | .version => ⟨versionText.toUTF8, 0⟩
  | .run options =>
    let lines := (inputLines input.toList).map fun line => ByteArray.mk line.toArray
    let sh := Shell.start options palette
    match options.file with
    | none =>
      let (status, sh) := sh.startInteractive.feedAll fuel lines
      ⟨sh.session.output, status⟩
    | some name =>
      match sh.runFile fuel name (readFile name) with
      | (some status, sh) => ⟨sh.session.output, status⟩
      | (none, sh) =>
        if options.interactive then
          let (status, sh) := sh.startInteractive.feedAll fuel lines
          ⟨sh.session.output, status⟩
        else ⟨sh.session.output, 0⟩

end Kiln
