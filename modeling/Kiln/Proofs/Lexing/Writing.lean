/-
Module: Kiln.Proofs.Lexing.Writing
Purpose: Lexing undoes writing. Which texts are values of a kind of token is told by the vocabulary, without the
  lexer and its tables: signs and reserved words have one text each, operators are chosen from a list,
  numbers and names are told by their characters, and a quoted text can be anything. Any row of such tokens
  is written with a space between any two of them, and the lexer gives it back.
Main exports: TokenKind.Takes, TokenKind.Takes.spelled, tokenize_written
-/
import Kiln.Proofs.Grammar.Source

namespace Kiln

open Kiln.Text Kiln.Lexer Kiln.Lexing

/-! ### The values of each kind of token -/

/-- A text is a value of tokens of this kind. The end of the source has none, since nothing writes it. -/
def TokenKind.Takes (value : String) : TokenKind → Prop
  | .number => value ≠ "" ∧ ∀ c ∈ value.toList, isNumeric c = true
  | .text => True
  | .identifier => ∃ c rest, value.toList = c :: rest ∧
    (c = '_' ∨ isAlphabetic c = true ∧ isNumeric c = false) ∧
    (∀ d ∈ rest, isAlphanumeric d = true ∨ d = '_') ∧ value ∉ reservedWords
  | .binaryOperator => value ∈ operatorTexts
  | .logicalOperator => value = "&&" ∨ value = "||"
  | .endOfFile => False
  | kind => kind.fixedText? = some value

namespace Token

/-- The token, moved to the first line. -/
def onFirstLine (t : Token) : Token := { t with line := 0 }

end Token

/-! ### Tokens with such values are spelled -/

theorem isName_of_takes {value : String} (h : TokenKind.identifier.Takes value) : isName value = true := by
  obtain ⟨c, rest, htext, hfirst, hrest, hreserved⟩ := h
  have hnumeric : isNumeric c = false := by
    rcases hfirst with rfl | ⟨-, hnumeric⟩
    · decide
    · exact hnumeric
  have hletter : isLetter c = true := by
    rcases hfirst with rfl | ⟨halphabetic, -⟩
    · decide
    · rw [isLetter, halphabetic, Bool.true_or]
  have hparts : rest.all isLetterOrNumber = true := by
    rw [List.all_eq_true]
    intro d hd
    rw [← isWordPart_eq]
    rcases hrest d hd with halphanumeric | rfl
    · rw [isWordPart, halphanumeric, Bool.true_or]
    · decide
  rw [isName, htext]
  simp [hnumeric, hletter, hparts, hreserved]

/-- A value of a kind of token is written as a lexeme that means it. -/
theorem TokenKind.Takes.spelled {kind : TokenKind} {value : String} (h : kind.Takes value) :
    (Token.printed kind value).Spelled := by
  have hoperator : ∀ text ∈ operatorTexts, (Token.printed .binaryOperator text).Spelled := by
    decide +kernel
  cases kind with
  | number => exact Token.spelled_numerals h.1 h.2
  | text => exact Token.spelled_text value
  | identifier => exact Token.spelled_name (isName_of_takes h)
  | binaryOperator => exact hoperator value h
  | logicalOperator => rcases h with rfl | rfl <;> decide +kernel
  | endOfFile => exact h.elim
  | _ =>
      cases h
      decide +kernel

/-! ### Rows of tokens -/

/-- The lexer gives back tokens that are written with spaces between them, all on the first line, and one more
    for the end of the source. -/
theorem tokenize_written {tokens : List Token} (h : ∀ t ∈ tokens, t.kind.Takes t.value) :
    tokenize (Token.spaced tokens) = .ok (tokens.map Token.onFirstLine ++ [Token.eof 1]) := by
  have hspaced : Token.spaced tokens = Token.spaced (tokens.map Token.onFirstLine) := by
    rw [Token.spaced, Token.spaced, List.map_map]
    rfl
  have hspelled : SpelledAll (tokens.map Token.onFirstLine) := by
    intro u hu
    obtain ⟨t, ht, rfl⟩ := List.mem_map.1 hu
    exact (h t ht).spelled
  rw [hspaced, tokenize_spaced hspelled]

/-- A number of a character that is also a letter, a text with all four escapes, two signs that would be one
    without the space, and a name that begins like a reserved word. -/
def neighbours : List Token :=
  [⟨.number, "Ⅷ4", 3⟩, ⟨.text, "a\"\\\n\tb", 1⟩, ⟨.equals, "=", 0⟩, ⟨.binaryOperator, "==", 0⟩,
    ⟨.ifWord, "if", 0⟩, ⟨.identifier, "if_²", 2⟩]

/-- Each of the neighbours stays apart from the next. -/
theorem tokenize_written_of_neighbours :
    Token.spaced neighbours = "Ⅷ4 \"a\\\"\\\\\\n\\tb\" = == if if_²" ∧
    tokenize (Token.spaced neighbours) = .ok (neighbours.map Token.onFirstLine ++ [Token.eof 1]) := by
  refine ⟨by decide +kernel, tokenize_written ?_⟩
  have hnumber : TokenKind.number.Takes "Ⅷ4" := by
    refine ⟨by decide, ?_⟩
    simp only [show "Ⅷ4".toList = ['Ⅷ', '4'] from rfl, List.forall_mem_cons]
    exact ⟨by decide, by decide, List.forall_mem_nil _⟩
  have hname : TokenKind.identifier.Takes "if_²" := by
    refine ⟨'i', ['f', '_', '²'], rfl, .inr ⟨by decide, by decide⟩, ?_, by decide⟩
    simp only [List.forall_mem_cons]
    exact ⟨by decide, by decide, by decide, List.forall_mem_nil _⟩
  have hsign : TokenKind.binaryOperator.Takes "==" := List.mem_of_elem_eq_true rfl
  simp only [neighbours, List.forall_mem_cons]
  exact ⟨hnumber, trivial, rfl, hsign, rfl, hname, List.forall_mem_nil _⟩

end Kiln
