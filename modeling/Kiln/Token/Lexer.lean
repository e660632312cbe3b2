/-
Module: Kiln.Token.Lexer
Purpose: Cutting a source text into tokens. The text is read as if one more line feed stood at its end.
  At each point the longest lexeme is taken: white space, a comment, a quoted text, a symbol, a number
  or a word. The first character that begins none of them ends the scan, and the tokens before it are
  kept.
Main exports: LexError, Reading, readLexeme, Scan, scanFrom, scan, tokenize
-/
import Kiln.Located
import Kiln.Text.Numeric
import Kiln.Token.Basic

namespace Kiln

open Kiln.Text

/-- Why a text cannot be cut into tokens. -/
inductive LexError where
  /-- A character begins no lexeme. -/
  | unrecognized (c : Char)
  /-- A number runs into a letter or an underscore. -/
  | letterInNumber
  /-- A quoted text lacks its closing quote. -/
  | unterminatedText
  /-- A backslash stands before a character that has no escape. -/
  | unknownEscape (c : Char)
deriving DecidableEq, Repr, Inhabited

/-- The message for a failed scan. -/
def LexError.message (palette : Palette) (e : LexError) : String :=
  palette.errorWord ++ match e with
  | .unrecognized c =>
    " while tokenizing code, unsupported character: -" ++ String.singleton c ++ "-."
  | .letterInNumber =>
    " while tokenizing number, only digits are supported to declare a number."
  | .unterminatedText => " while tokenizing string, missing closing '\"'."
  | .unknownEscape c =>
    " while tokenizing string, unknown escape sequence: -\\" ++ String.singleton c ++ "-."

namespace Lexer

/-! ### One lexeme -/

/-- White space within a line. -/
def isSkipped (c : Char) : Bool := c == ' ' || c == '\t' || c == '\r'

/-- Characters that may begin a word, if they are not numeric. -/
def isWordStart (c : Char) : Bool := isAlphabetic c || c == '_'

/-- Characters that may follow in a word. -/
def isWordPart (c : Char) : Bool := isAlphanumeric c || c == '_'

/-- The character that an escape stands for, named by the character after the backslash. -/
def unescape : Char → Option Char
  | 'n' => some '\n'
  | 't' => some '\t'
  | '"' => some '"'
  | '\\' => some '\\'
  | _ => none

/-- What is found after an opening quote. -/
inductive TextReading where
  /-- The text up to the closing quote, the line feeds in it, and what follows the quote. -/
  | closed (value : String) (newlines : Nat) (rest : List Char)
  /-- No closing quote before the end. -/
  | unterminated
  /-- A backslash before a character without escape, and the line feeds before it. -/
  | unknownEscape (c : Char) (newlines : Nat)
deriving DecidableEq, Repr

/-- Reads on to the closing quote. `read` holds the characters so far, the last one first, and
    `newlines` counts the line feeds among those that were not written as escapes. -/
def readText (read : List Char) (newlines : Nat) : List Char → TextReading
  | [] => .unterminated
  | c :: rest =>
    if c = '"' then .closed (String.ofList read.reverse) newlines rest
    else if c = '\\' then
      match rest with
      | [] => .unterminated
      | e :: rest =>
        match unescape e with
        | some d => readText (d :: read) newlines rest
        | none => .unknownEscape e newlines
    else readText (c :: read) (if c = '\n' then newlines + 1 else newlines) rest

/-- What stands at the front of a text. -/
inductive Reading where
  /-- White space or a comment, the line feeds in it, and what follows. -/
  | trivia (newlines : Nat) (rest : List Char)
  /-- A token, the line feeds in its lexeme, and what follows. -/
  | token (kind : TokenKind) (value : String) (newlines : Nat) (rest : List Char)
  /-- No lexeme; the line feeds before the offending place. -/
  | failure (cause : LexError) (newlines : Nat)
deriving DecidableEq, Repr

/-- The reading of a quoted text after its opening quote. A missing closing quote is blamed on the line
    of the opening one. -/
def readQuoted (rest : List Char) : Reading :=
  match readText [] 0 rest with
  | .closed value newlines rest => .token .text value newlines rest
  | .unterminated => .failure .unterminatedText 0
  | .unknownEscape c newlines => .failure (.unknownEscape c) newlines

/-- The longest run of number characters, of which `c` is the first. -/
def readNumber (c : Char) (rest : List Char) : Reading :=
  let after := rest.dropWhile isNumeric
  if after.head?.any isWordStart then .failure .letterInNumber 0
  else .token .number (String.ofList (c :: rest.takeWhile isNumeric)) 0 after

/-- The longest word that begins with `c`. -/
def readWord (c : Char) (rest : List Char) : Reading :=
  let word := String.ofList (c :: rest.takeWhile isWordPart)
  .token (wordKind word) word 0 (rest.dropWhile isWordPart)

/-- The first symbol of the table that `text` begins with. -/
def symbolAt? (text : List Char) : Option Symbol :=
  symbols.find? (fun s => s.text.isPrefixOf text)

/-- Reads the lexeme at the front of the text `c :: rest`. -/
def readLexeme (c : Char) (rest : List Char) : Reading :=
  if isSkipped c then .trivia 0 rest
  else if c = '\n' then .trivia 1 rest
  else if c = '"' then readQuoted rest
  else if c = '/' ∧ rest.head? = some '/' then .trivia 0 (rest.dropWhile (· ≠ '\n'))
  else match symbolAt? (c :: rest) with
    | some s => .token s.kind (String.ofList s.text) 0 (rest.drop (s.text.length - 1))
    | none =>
      if isNumeric c then readNumber c rest
      else if isWordStart c then readWord c rest
      else .failure (.unrecognized c) 0

/-! ### Every lexeme takes at least one character -/

theorem length_dropWhile_le (p : Char → Bool) (text : List Char) :
    (text.dropWhile p).length ≤ text.length :=
  (List.dropWhile_sublist p).length_le

theorem length_of_readText {read : List Char} {n m : Nat} {text rest : List Char} {value : String}
    (h : readText read n text = .closed value m rest) : rest.length < text.length := by
  fun_induction readText read n text with
  | case1 => simp at h
  | case2 => simp at h; simp [h]
  | case3 => simp at h
  | case4 read n e rest' d hd hq ih => have := ih h; simp only [List.length_cons]; omega
  | case5 => simp at h
  | case6 read n c rest' hq hb ih => have := ih h; simp only [List.length_cons]; omega

/-- What follows a reading, if it is no failure. -/
def Reading.rest? : Reading → Option (List Char)
  | .trivia _ rest => some rest
  | .token _ _ _ rest => some rest
  | .failure .. => none

/-- What follows the lexeme is no longer than what follows its first character. -/
theorem length_of_readLexeme {c : Char} {text rest : List Char}
    (h : (readLexeme c text).rest? = some rest) : rest.length ≤ text.length := by
  unfold readLexeme at h
  split at h
  · simp_all [Reading.rest?]
  split at h
  · simp_all [Reading.rest?]
  split at h
  · unfold readQuoted at h
    split at h <;> simp [Reading.rest?] at h
    rename_i heq
    subst h
    exact Nat.le_of_lt (length_of_readText heq)
  split at h
  · simp only [Reading.rest?, Option.some.injEq] at h
    exact h ▸ length_dropWhile_le _ _
  split at h
  · simp only [Reading.rest?, Option.some.injEq] at h
    subst h
    simp
  split at h
  · unfold readNumber at h
    dsimp only at h
    split at h <;> simp [Reading.rest?] at h
    exact h ▸ length_dropWhile_le _ _
  split at h
  · simp only [readWord, Reading.rest?, Option.some.injEq] at h
    exact h ▸ length_dropWhile_le _ _
  · simp [Reading.rest?] at h

end Lexer

/-! ### Whole texts -/

/-- The outcome of a scan: all tokens, or those before the failure. -/
structure Scan where
  tokens : List Token
  failure : Option (Located LexError)
deriving DecidableEq, Repr

/-- The scan with one more token in front. -/
def Scan.cons (t : Token) (s : Scan) : Scan := { s with tokens := t :: s.tokens }

open Lexer in
/-- Scans `text`, which begins on line `line`. A complete list of tokens ends with one for the end of
    the source, which lies on the line after the last line feed. -/
def scanFrom (line : Nat) (text : List Char) : Scan :=
  match text with
  | [] => ⟨[Token.eof line], none⟩
  | c :: text =>
    match _ : readLexeme c text with
    | .trivia newlines rest => scanFrom (line + newlines) rest
    | .token kind value newlines rest =>
      (scanFrom (line + newlines) rest).cons ⟨kind, value, line⟩
    | .failure cause newlines => ⟨[], some ⟨line + newlines, cause⟩⟩
termination_by text.length
decreasing_by
  all_goals
    rename_i hr
    have := @length_of_readLexeme c text rest (by rw [hr]; rfl)
    simp only [List.length_cons]
    omega

/-- Scans a source text. -/
def scan (source : String) : Scan := scanFrom 0 (source.toList ++ ['\n'])

/-- The tokens of a source text, or the place and cause of the first failure. -/
def tokenize (source : String) : Except (Located LexError) (List Token) :=
  let s := scan source
  match s.failure with
  | some e => .error e
  | none => .ok s.tokens

end Kiln
