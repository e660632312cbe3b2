/-
Module: Kiln.Proofs.Lexing.Vocabulary
Purpose: The words and signs of the language, written out without the lexer and its tables. Signs and reserved
  words have one text each, operators are chosen from a list, words are told by their characters, and four
  escapes stand for what is not written between quotes as it is. The tables of the lexer say the same.
Main exports: TokenKind.fixedText?, reservedWords, operatorTexts, Lexing.signs, Lexing.kindOfWord,
  Lexing.escapes, Lexing.blanks, isName, Lexing.lookup_signs, Lexing.wordKind_eq, Lexing.unescape_eq
-/
import Kiln.Token.Lexer

namespace Kiln

open Kiln.Text

/-! ### The texts of tokens -/

/-- The one text that writes a kind of token, for signs and reserved words. -/
def TokenKind.fixedText? : TokenKind → Option String
  | .declare => some ":="
  | .equals => some "="
  | .bang => some "!"
  | .increment => some "++"
  | .decrement => some "--"
  | .arrow => some "=>"
  | .openParen => some "("
  | .closeParen => some ")"
  | .openBrace => some "\x7b"
  | .closeBrace => some "\x7d"
  | .comma => some ","
  | .colon => some ":"
  | .dot => some "."
  | .funcWord => some "func"
  | .classWord => some "class"
  | .thisWord => some "this"
  | .ifWord => some "if"
  | .elseWord => some "else"
  | .whileWord => some "while"
  | .returnWord => some "return"
  | .trueWord => some "true"
  | .falseWord => some "false"
  | .number | .text | .identifier | .binaryOperator | .logicalOperator | .endOfFile => none

/-- The words that are no names. -/
def reservedWords : List String :=
  ["func", "class", "this", "if", "else", "while", "return", "true", "false"]

/-- The texts of arithmetic and comparison signs. -/
def operatorTexts : List String := ["+", "-", "*", "/", "%", "**", "<", ">", "<=", ">=", "==", "!="]

namespace Lexing

/-- The kinds of signs that have one text. -/
def signKinds : List TokenKind :=
  [.declare, .equals, .bang, .increment, .decrement, .arrow, .openParen, .closeParen, .openBrace,
    .closeBrace, .comma, .colon, .dot]

/-- The kinds of reserved words. -/
def reservedKinds : List TokenKind :=
  [.funcWord, .classWord, .thisWord, .ifWord, .elseWord, .whileWord, .returnWord, .trueWord, .falseWord]

/-- The texts that write tokens of these kinds. -/
def textsOf (kinds : List TokenKind) : List (String × TokenKind) :=
  kinds.filterMap fun kind => kind.fixedText?.map fun text => (text, kind)

/-- All signs, each with the kind of its token. -/
def signs : List (String × TokenKind) :=
  textsOf signKinds ++ operatorTexts.map (·, .binaryOperator) ++ ["&&", "||"].map (·, .logicalOperator)

/-- The kind of token that a word writes. -/
def kindOfWord (word : String) : TokenKind := ((textsOf reservedKinds).lookup word).getD .identifier

/-- What the characters that stand after a backslash in a quoted text mean. -/
def escapes : List (Char × Char) := [('n', '\n'), ('t', '\t'), ('"', '"'), ('\\', '\\')]

/-! ### The characters of words -/

/-- White space. -/
def blanks : List Char := [' ', '\t', '\r', '\n']

/-- Letters and the underscore. -/
def isLetter (c : Char) : Bool := isAlphabetic c || c == '_'

/-- Letters, the underscore and numeric characters. -/
def isLetterOrNumber (c : Char) : Bool := isLetter c || isNumeric c

end Lexing

open Lexing in
/-- Whether a text is a name: a word that begins with no numeric character and is not reserved. -/
def isName (name : String) : Bool :=
  match name.toList with
  | [] => false
  | c :: rest =>
    !isNumeric c && isLetter c && rest.all isLetterOrNumber && !reservedWords.contains name

namespace Lexing

/-! ### The tables of the lexer -/

theorem unescape_eq (c : Char) : Lexer.unescape c = escapes.lookup c := by
  unfold Lexer.unescape
  split
  · rfl
  · rfl
  · rfl
  · rfl
  · next hn ht hq hb =>
    refine (List.lookup_eq_none_iff.2 ?_).symm
    simpa [escapes] using ⟨hn, ht, hq, hb⟩

theorem isWordStart_eq : Lexer.isWordStart = isLetter := rfl

theorem isWordPart_eq : Lexer.isWordPart = isLetterOrNumber := by
  funext c
  exact Bool.or_right_comm _ _ _

theorem mem_blanks_iff (c : Char) : c ∈ blanks ↔ Lexer.isSkipped c = true ∨ c = '\n' := by
  simp [blanks, Lexer.isSkipped, or_assoc]

theorem wordKind_eq : wordKind = kindOfWord := by
  have hwords : keywords = textsOf reservedKinds := rfl
  funext word
  rw [wordKind, hwords, kindOfWord]

theorem lookup_signs_of_mem : ∀ s ∈ symbols, signs.lookup (String.ofList s.text) = some s.kind := by
  decide +kernel

theorem exists_symbol_of_mem : ∀ sign ∈ signs, ∃ s ∈ symbols, s.text = sign.1.toList := by
  decide +kernel

/-- A text is a sign for the lexer exactly if it is one here, and then of the same kind. -/
theorem lookup_signs (text : List Char) :
    signs.lookup (String.ofList text) = (symbols.find? fun s => s.text == text).map Symbol.kind := by
  cases hfind : symbols.find? fun s => s.text == text with
  | some s =>
      have htext : s.text = text := by simpa using List.find?_some hfind
      rw [← htext]
      exact lookup_signs_of_mem s (List.mem_of_find?_eq_some hfind)
  | none =>
      rw [Option.map_none, List.lookup_eq_none_iff]
      intro sign hsign
      obtain ⟨s, hs, htext⟩ := exists_symbol_of_mem sign hsign
      rw [bne_iff_ne]
      intro heq
      have hother := List.find?_eq_none.1 hfind s hs
      rw [htext, ← heq, String.toList_ofList] at hother
      exact hother (beq_self_eq_true _)

/-! ### Kinds of words and signs -/

/-- A sign writes no word and no number. -/
theorem kind_of_mem_signs : ∀ sign ∈ signs, sign.2 ≠ .identifier ∧ sign.2 ≠ .number := by
  decide +kernel

theorem kind_of_mem_textsOf_reservedKinds :
    ∀ word ∈ textsOf reservedKinds, word.2 ≠ .identifier ∧ word.2 ≠ .number := by
  decide +kernel

theorem mem_of_lookup {table : List (String × TokenKind)} {text : String} {kind : TokenKind}
    (h : table.lookup text = some kind) : (text, kind) ∈ table := by
  obtain ⟨before, behind, hsplit, -⟩ := List.lookup_eq_some_iff.1 h
  rw [hsplit]
  exact List.mem_append_right _ List.mem_cons_self

theorem kindOfWord_ne_number (word : String) : kindOfWord word ≠ .number := by
  rw [kindOfWord]
  cases hlookup : (textsOf reservedKinds).lookup word with
  | none => decide
  | some kind => exact (kind_of_mem_textsOf_reservedKinds _ (mem_of_lookup hlookup)).2

/-- The words that write names are those that are not reserved. -/
theorem kindOfWord_eq_identifier_iff (word : String) :
    kindOfWord word = .identifier ↔ word ∉ reservedWords := by
  have hwords : reservedWords = (textsOf reservedKinds).map Prod.fst := rfl
  rw [kindOfWord, hwords]
  cases hlookup : (textsOf reservedKinds).lookup word with
  | none =>
      refine iff_of_true rfl fun hmem => ?_
      obtain ⟨⟨text, kind⟩, hentry, rfl⟩ := List.mem_map.1 hmem
      exact bne_iff_ne.1 (List.lookup_eq_none_iff.1 hlookup _ hentry) rfl
  | some kind =>
      have hmem := mem_of_lookup hlookup
      refine iff_of_false (kind_of_mem_textsOf_reservedKinds _ hmem).1 fun hnot => ?_
      exact hnot (List.mem_map.2 ⟨_, hmem, rfl⟩)

end Lexing

end Kiln
