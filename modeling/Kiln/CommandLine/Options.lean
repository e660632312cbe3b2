/-
Module: Kiln.CommandLine.Options
Purpose: The options of the command line. Short options may be grouped; the value of an option stands
  next to it, behind an equals sign, or in the next argument. Each option may be given once.
Main exports: Options, Invocation, Invocation.ofArguments
-/

namespace Kiln

/-- What the command is to do. -/
structure Options where
  /-- The script to run. -/
  file : Option String
  /-- Whether to go on interactively after the script. -/
  interactive : Bool
  /-- Whether to show the outline of each program. -/
  outline : Bool
  /-- Whether to show the distances of references. -/
  resolutions : Bool
deriving DecidableEq, Repr

/-- Nothing is asked for. -/
def Options.none : Options := ⟨.none, false, false, false⟩

/-- What a list of arguments asks for. -/
inductive Invocation where
  | run (options : Options)
  | help
  | version
  | usageError
deriving DecidableEq, Repr

namespace Invocation

/-- The arguments can be read on with these options, or the meaning of all of them is known already. -/
inductive Reading where
  | options (options : Options) (rest : List String)
  | final (invocation : Invocation)

/-- The options once the script is given. -/
def setFile (o : Options) (name : String) (rest : List String) : Reading :=
  if o.file.isSome then .final .usageError else .options { o with file := some name } rest

/-- The options once one that takes no value is given. -/
def setFlag (o : Options) (flag : Char) : Option Options :=
  match flag with
  | 'i' => if o.interactive then none else some { o with interactive := true }
  | 'a' => if o.outline then none else some { o with outline := true }
  | 'r' => if o.resolutions then none else some { o with resolutions := true }
  | _ => none

/-- Whether an argument can be the value of the option before it: one that looks like an option
    cannot. -/
def isValue (argument : String) : Bool :=
  match argument.toList with
  | '-' :: _ :: _ => false
  | _ => true

/-- The script's name from the next argument. -/
def fileFromNext (o : Options) (rest : List String) : Reading :=
  match rest with
  | name :: rest => if isValue name then setFile o name rest else .final .usageError
  | [] => .final .usageError

/-- Reads a group of short options. -/
def shortOptions (o : Options) (rest : List String) : List Char → Reading
  | [] => .options o rest
  | 'f' :: [] => fileFromNext o rest
  | 'f' :: '=' :: name => setFile o (String.ofList name) rest
  | 'f' :: name => setFile o (String.ofList name) rest
  | 'h' :: _ => .final .help
  | 'V' :: _ => .final .version
  | c :: group =>
    match setFlag o c with
    | some o => shortOptions o rest group
    | none => .final .usageError

/-- Reads an option that does not take a value from its name in full. -/
def longFlag (o : Options) (rest : List String) (flag : Char) : Reading :=
  match setFlag o flag with
  | some o => .options o rest
  | none => .final .usageError

/-- Reads one argument. Two dashes alone end the options, and nothing may follow them. -/
def argument (o : Options) (rest : List String) (text : String) : Reading :=
  match text with
  | "--file" => fileFromNext o rest
  | "--inter" => longFlag o rest 'i'
  | "--ast-print" => longFlag o rest 'a'
  | "--resolutions" => longFlag o rest 'r'
  | "--help" => .final .help
  | "--version" => .final .version
  | "--" => if rest.isEmpty then .options o [] else .final .usageError
  | _ =>
    match text.toList with
    | '-' :: '-' :: 'f' :: 'i' :: 'l' :: 'e' :: '=' :: name => setFile o (String.ofList name) rest
    | '-' :: '-' :: _ => .final .usageError
    | '-' :: c :: group => shortOptions o rest (c :: group)
    | _ => .final .usageError

/-- Reads arguments on from some options. At most as many steps are needed as there are arguments. -/
def ofArgumentsFrom : Nat → Options → List String → Invocation
  | _, o, [] => .run o
  | 0, _, _ => .usageError
  | steps + 1, o, text :: rest =>
    match argument o rest text with
    | .options o rest => ofArgumentsFrom steps o rest
    | .final invocation => invocation

/-- What a list of arguments asks for. -/
def ofArguments (arguments : List String) : Invocation :=
  ofArgumentsFrom arguments.length .none arguments

end Invocation

end Kiln
