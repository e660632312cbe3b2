/-
Module: Kiln.Token.Basic
Purpose: Tokens, the words of a program. A token has a kind, the text it stands for, and the line on
  which it starts. Symbols and keywords are listed in tables that the lexer and the writer share.
Main exports: TokenKind, TokenKind.label, Token, Symbol, symbols, keywords, keyword?
-/

namespace Kiln

/-- The kinds of tokens. -/
inductive TokenKind where
  /-- A run of number characters. -/
  | number
  /-- A text between double quotes. -/
  | text
  /-- A name that is no keyword. -/
  | identifier
  /-- The sign that declares a variable. -/
  | declare
  /-- The sign that assigns. -/
  | equals
  /-- Arithmetic and comparison signs; the value tells which. -/
  | binaryOperator
  /-- The signs for "and" and "or". -/
  | logicalOperator
  | bang
  | increment
  | decrement
  /-- The arrow between the parameters and the body of an unnamed function. -/
  | arrow
  | openParen
  | closeParen
  | openBrace
  | closeBrace
  | comma
  | colon
  | dot
  | funcWord
  | classWord
  | thisWord
  | ifWord
  | elseWord
  | whileWord
  | returnWord
  | trueWord
  | falseWord
  /-- The end of the source. -/
  | endOfFile
deriving DecidableEq, Repr, Inhabited

/-- The name by which messages call a kind of token. -/
def TokenKind.label : TokenKind → String
  | .number => "Number"
  | .text => "String"
  | .identifier => "Identifier"
  | .declare => "Declare"
  | .equals => "Equals"
  | .binaryOperator => "BinaryOperator"
  | .logicalOperator => "LogicalOperator"
  | .bang => "Bang"
  | .increment => "Increment"
  | .decrement => "Decrement"
  | .arrow => "FatArrow"
  | .openParen => "OpenParen"
  | .closeParen => "CloseParen"
  | .openBrace => "OpenBrace"
  | .closeBrace => "CloseBrace"
  | .comma => "Comma"
  | .colon => "Colon"
  | .dot => "Dot"
  | .funcWord => "Func"
  | .classWord => "Class"
  | .thisWord => "This"
  | .ifWord => "If"
  | .elseWord => "Else"
  | .whileWord => "While"
  | .returnWord => "Return"
  | .trueWord => "True"
  | .falseWord => "False"
  | .endOfFile => "EOF"

/-- A token. The lexer determines the value by the lexeme; a list of tokens from elsewhere may pair any
    kind with any value. -/
structure Token where
  kind : TokenKind
  value : String
  line : Nat
deriving DecidableEq, Repr, Inhabited

namespace Token

/-- The token that ends a list of tokens. -/
def eof (line : Nat) : Token := ⟨.endOfFile, "EOF", line⟩

/-- The token `lines` lines further down. -/
def shift (lines : Nat) (t : Token) : Token := { t with line := t.line + lines }

end Token

/-- A token with a fixed text made of signs. -/
structure Symbol where
  text : List Char
  kind : TokenKind
deriving DecidableEq, Repr

/-- All symbols. One that begins with another stands before it, so that the first match in this list is
    the longest. -/
def symbols : List Symbol :=
  [ ⟨[':', '='], .declare⟩,
    ⟨['=', '='], .binaryOperator⟩,
    ⟨['=', '>'], .arrow⟩,
    ⟨['!', '='], .binaryOperator⟩,
    ⟨['<', '='], .binaryOperator⟩,
    ⟨['>', '='], .binaryOperator⟩,
    ⟨['*', '*'], .binaryOperator⟩,
    ⟨['+', '+'], .increment⟩,
    ⟨['-', '-'], .decrement⟩,
    ⟨['&', '&'], .logicalOperator⟩,
    ⟨['|', '|'], .logicalOperator⟩,
    ⟨['('], .openParen⟩,
    ⟨[')'], .closeParen⟩,
    ⟨['{'], .openBrace⟩,
    ⟨['}'], .closeBrace⟩,
    ⟨[','], .comma⟩,
    ⟨['.'], .dot⟩,
    ⟨[':'], .colon⟩,
    ⟨['='], .equals⟩,
    ⟨['!'], .bang⟩,
    ⟨['<'], .binaryOperator⟩,
    ⟨['>'], .binaryOperator⟩,
    ⟨['*'], .binaryOperator⟩,
    ⟨['+'], .binaryOperator⟩,
    ⟨['-'], .binaryOperator⟩,
    ⟨['/'], .binaryOperator⟩,
    ⟨['%'], .binaryOperator⟩ ]

/-- The reserved words. -/
def keywords : List (String × TokenKind) :=
  [ ("func", .funcWord),
    ("class", .classWord),
    ("this", .thisWord),
    ("if", .ifWord),
    ("else", .elseWord),
    ("while", .whileWord),
    ("return", .returnWord),
    ("true", .trueWord),
    ("false", .falseWord) ]

/-- The kind of a word: a keyword's own, or that of a name. -/
def wordKind (word : String) : TokenKind := (keywords.lookup word).getD .identifier

end Kiln
