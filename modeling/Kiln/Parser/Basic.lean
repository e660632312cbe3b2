/-
Module: Kiln.Parser.Basic
Purpose: The steps from which the grammar is built: looking at the next token, taking it, demanding a
  kind of token, and drawing an id for a reference. What a step did stays done when a later one fails,
  so the ids drawn by a rejected text stay used.
Main exports: ParseError, ParseError.message, Cursor, Parser, Parser.peek, Parser.take, Parser.skip,
  Parser.expect, Parser.accept, Parser.freshId
-/
import Kiln.Token.Basic
import Kiln.Tree.Basic

namespace Kiln

open Kiln.Text

/-- Why a list of tokens is no program. -/
inductive ParseError where
  | wrongToken (expected found : TokenKind)
  | noToken
  | unexpectedToken (value : String)
  | unexpectedEnd
  | invalidNumber (text : String)
  | missingCloseParen
  | invalidDeclarationTarget
  | invalidAssignmentTarget
  | invalidUpdateTarget
  | missingProperty
  | missingFunctionName
  | expectedParameter (found : String)
  | missingArrow
  | missingClassName
  | expectedMethod (found : String)
  | missingOpenBrace (owner : String)
  | unclosedBlock
deriving DecidableEq, Repr, Inhabited

/-- The message for a rejected list of tokens. Pieces of program text in it are shown in cyan. -/
def ParseError.message (palette : Palette) (e : ParseError) : String :=
  let code := palette.paint .cyan
  palette.errorWord ++ match e with
  | .wrongToken expected found =>
    " expected token: -" ++ expected.label ++ "-, token found: -" ++ found.label ++ "-"
  | .noToken => " tryed to use non existant token"
  | .unexpectedToken value => " unexpected token: -" ++ value ++ "-"
  | .unexpectedEnd => " unexpected end of file"
  | .invalidNumber text => " number literal doesn't fit in a 64 bits integer: " ++ text
  | .missingCloseParen => " missing closing parenthesis"
  | .invalidDeclarationTarget =>
    " only a name can be declared with " ++ code ":=" ++ ", like: " ++ code "x := 5"
  | .invalidAssignmentTarget =>
    " only a variable or a member can be assigned, like: " ++ code "x = 5" ++ " or "
      ++ code "obj.x = 5"
  | .invalidUpdateTarget =>
    " only a variable can be incremented or decremented, like: " ++ code "x++"
  | .missingProperty => " missing identifier after '.'"
  | .missingFunctionName =>
    " while parsing function declaration. Expected function name after " ++ code "func"
      ++ " keyword."
  | .expectedParameter found =>
    " while parsing parameters. Expected parameter name, found: " ++ found ++ "."
  | .missingArrow =>
    " while parsing arrow function. Expected " ++ code "=>" ++ " after parameters."
  | .missingClassName =>
    " while parsing class declaration. Expected class name after " ++ code "class" ++ " keyword."
  | .expectedMethod found =>
    " while parsing class declaration. Only methods are allowed in a class body, found: " ++ found
      ++ "."
  | .missingOpenBrace owner => " expected '\x7b' to open the body of " ++ owner ++ "."
  | .unclosedBlock => " missing '\x7d' to close the block."

/-- Where a parse stands: the tokens that are left, and how many ids have been drawn. -/
structure Cursor where
  tokens : List Token
  drawn : Nat
deriving DecidableEq, Repr, Inhabited

/-- A step of parsing. It keeps the cursor also when it fails. -/
abbrev Parser := EStateM ParseError Cursor

namespace Parser

/-- The token that stands for the end when no token is left. -/
def noMore : Token := ⟨.endOfFile, "", 0⟩

/-- The next token of a list. -/
def front (tokens : List Token) : Token := tokens.headD noMore

/-- The next token, which stays where it is. -/
def peek : Parser Token := fun c => .ok (front c.tokens) c

/-- Takes the next token. -/
def take : Parser Token := fun c =>
  match c.tokens with
  | [] => .error .noToken c
  | t :: rest => .ok t { c with tokens := rest }

/-- Takes the next token, which is known already. -/
def skip : Parser Unit := do
  let _ ← take

/-- Takes the next token if it is of the given kind, and fails with `cause` otherwise. -/
def expect (kind : TokenKind) (cause : Token → ParseError) : Parser Token := do
  let t ← peek
  if t.kind = kind then take else throw (cause t)

/-- Takes the next token if it is of the given kind. -/
def accept (kind : TokenKind) : Parser Bool := do
  if (← peek).kind = kind then
    skip
    return true
  else
    return false

/-- Draws the next id. Ids are 32 bit numbers, so they repeat after as many draws as there are. -/
def freshId : Parser NodeId := fun c =>
  .ok ⟨c.drawn % NodeId.count⟩ { c with drawn := c.drawn + 1 }

end Parser

end Kiln
