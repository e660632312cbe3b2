/-
Module: Kiln.Main
Purpose: The command itself: it reads arguments, files and lines, hands them to the shell, and writes out
  what the shell shows.
Main exports: main
-/
import Kiln.CommandLine.Shell

open Kiln.Text

namespace Kiln.Command

/-- Writes out what the shell has shown since the output had `shown` bytes. -/
def flushFrom (shown : Nat) (sh : Shell) : IO Nat := do
  let output := sh.session.output
  let stdout ← IO.getStdout
  stdout.write (output.extract shown output.size)
  stdout.flush
  return output.size

/-- Whether `code` is the system's error `number`, which may come negated. -/
def isError (number code : UInt32) : Bool := code == number || code == 0 - number

/-- The reason for which the system does not read a file. -/
def fileError (e : IO.Error) : FileError :=
  match e with
  | .noFileOrDirectory .. => .notFound
  | .permissionDenied .. => .permissionDenied
  | .inappropriateType _ code _ => if isError 21 code then .isFolder else .notFolder
  | .invalidArgument _ code _ => if isError 36 code then .nameTooLong else .other (toString e)
  | _ => .other (toString e)

/-- The bytes of a file, or the reason for not reading them. -/
def readBytes (name : String) : IO (Except FileError ByteArray) := do
  try
    return .ok (← IO.FS.readBinFile name)
  catch e =>
    return .error (fileError e)

/-- The next line of the input, with its line feed. -/
def nextLine : IO (Option ByteArray) := do
  let mut line := ByteArray.empty
  let stdin ← IO.getStdin
  repeat
    let bytes ← stdin.read 1
    line := line ++ bytes
    if bytes.isEmpty || bytes.toList == [10] then break
  return if line.isEmpty then none else some line

/-- Feeds lines to the shell until it ends. -/
partial def interact (shown : Nat) (sh : Shell) : IO UInt32 := do
  let (status, sh) := sh.feed Shell.ample (← nextLine)
  let shown ← flushFrom shown sh
  match status with
  | some status => return status.toUInt32
  | none => interact shown sh

end Kiln.Command

open Kiln Kiln.Command

/-- The command. -/
def main (arguments : List String) : IO UInt32 := do
  match Invocation.ofArguments arguments with
  | .usageError =>
    IO.eprint helpText
    return 2
  | .help =>
    IO.print helpText
    return 0
  | .version =>
    IO.print versionText
    return 0
  | .run options =>
    let palette : Palette := if (← IO.getEnv "CLICOLOR_FORCE").any (· != "0") then .ansi else .plain
    let sh := Shell.start options palette
    match options.file with
    | none =>
      let sh := sh.startInteractive
      interact (← flushFrom 0 sh) sh
    | some name =>
      match sh.runFile Shell.ample name (← readBytes name) with
      | (some status, sh) =>
        discard (flushFrom 0 sh)
        return status.toUInt32
      | (none, sh) =>
        if options.interactive then
          let sh := sh.startInteractive
          interact (← flushFrom 0 sh) sh
        else
          discard (flushFrom 0 sh)
          return 0
