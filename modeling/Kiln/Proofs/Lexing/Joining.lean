/-
Module: Kiln.Proofs.Lexing.Joining
Purpose: Texts that are put below each other. No piece of a text looks past a line feed that follows it, so a
  text that can be cut into tokens is cut the same way when more lines come after it, and the scan goes on
  behind it as on a text of its own, only further down. This holds of the texts that come after whether or not
  they can be cut.
Main exports: Located.shift, Scan.shift, scanFrom_add, scanFrom_textOf_append, tokenize_below
-/
import Kiln.Proofs.Lexing.Cutting

namespace Kiln

open Kiln.Text Lexer Lexing Piece

/-- The same thing, `lines` lines further down. -/
def Located.shift {α : Type} (lines : Nat) (x : Located α) : Located α :=
  { x with line := x.line + lines }

/-- The scan of the same text, when it begins `lines` lines further down. -/
def Scan.shift (lines : Nat) (s : Scan) : Scan :=
  ⟨s.tokens.map (Token.shift lines), s.failure.map (Located.shift lines)⟩

/-- The scan with these tokens in front. -/
def Scan.prepend (tokens : List Token) (s : Scan) : Scan := { s with tokens := tokens ++ s.tokens }

theorem scanFrom_of_failure {line newlines : Nat} {c : Char} {text : List Char} {cause : LexError}
    (h : readLexeme c text = .failure cause newlines) :
    scanFrom line (c :: text) = ⟨[], some ⟨line + newlines, cause⟩⟩ := by
  rw [scanFrom]
  split <;> simp_all

theorem tokenize_eq_ok_iff_scan {source : String} {tokens : List Token} :
    tokenize source = .ok tokens ↔ (scan source).failure = none ∧ (scan source).tokens = tokens := by
  rw [tokenize]
  cases (scan source).failure <;> simp

theorem tokenize_eq_error_iff_scan {source : String} {e : Located LexError} :
    tokenize source = .error e ↔ (scan source).failure = some e := by
  rw [tokenize]
  cases (scan source).failure <;> simp

/-- The line on which a text begins moves its tokens and its failure, and does nothing else. -/
theorem scanFrom_add (line lines : Nat) (text : List Char) :
    scanFrom (line + lines) text = (scanFrom line text).shift lines := by
  fun_induction scanFrom line text with
  | case1 line => simp [scanFrom_nil, Scan.shift, Token.shift, Token.eof]
  | case2 line c text newlines rest hread ih =>
      rw [scanFrom_of_trivia hread, Nat.add_right_comm, ih]
  | case3 line c text kind value newlines rest hread ih =>
      rw [scanFrom_of_token hread, Nat.add_right_comm, ih]
      rfl
  | case4 line c text cause newlines hread =>
      rw [scanFrom_of_failure hread, Nat.add_right_comm]
      rfl

/-- A row of pieces gives its tokens whatever lines come after it, and the scan goes on with those. -/
theorem scanFrom_textOf_append {pieces : List Piece} (h : Cut pieces) (before more : List Char) :
    scanFrom (before.count '\n') (textOf pieces ++ '\n' :: more) =
      (scanFrom ((before ++ textOf pieces).count '\n' + 1) more).prepend (tokensOf before pieces) := by
  induction pieces generalizing before with
  | nil =>
      have hread : readLexeme '\n' more = .trivia 1 more := rfl
      simp [tokensOf, scanFrom_of_trivia hread, Scan.prepend]
  | cons p rest ih =>
      obtain ⟨hp, hrest⟩ := h
      have hproper : p.Proper (textOf rest ++ '\n' :: more) := proper_append_newline_iff.2 hp
      have hcount : before.count '\n' + p.text.count '\n' = (before ++ p.text).count '\n' := by
        rw [List.count_append]
      rw [textOf_cons, List.append_assoc, hproper.scanFrom_append, hcount, ih hrest]
      simp [tokensOf, Scan.prepend]

/-- Below a text that is cut into tokens, a scan starts anew. -/
theorem scan_below {s t : String} {tokens : List Token} {n : Nat}
    (h : tokenize s = .ok (tokens ++ [Token.eof n])) :
    scan (s ++ "\n" ++ t) = ((scan t).shift n).prepend tokens := by
  obtain ⟨pieces, htext, hcut, hall⟩ := (tokenize_eq_ok_iff s _).1 h
  obtain ⟨htokens, heof⟩ := List.append_inj' hall rfl
  have hn : n = s.toList.count '\n' + 1 := by simpa [Token.eof] using heof
  have hlines : (s ++ "\n" ++ t).toList ++ ['\n'] = textOf pieces ++ '\n' :: (t.toList ++ ['\n']) := by
    simp [htext]
  have hscan := scanFrom_textOf_append hcut [] (t.toList ++ ['\n'])
  rw [List.nil_append, htext, ← hn, ← Nat.zero_add n, scanFrom_add] at hscan
  rw [scan, hlines, htokens, htext]
  exact hscan

/-- Of two texts below each other, the first of which can be cut into tokens, the second is cut as it is
    alone. The two can be cut together exactly when the second can, and its tokens follow those of the
    first, as many lines further down as the first text ends at. They fail together exactly when the second
    fails, for the same reason that much further down, and the tokens kept are those of the first and those
    that the second keeps. -/
theorem tokenize_below {s t : String} {tokens : List Token} {n : Nat}
    (h : tokenize s = .ok (tokens ++ [Token.eof n])) :
    (∀ all, tokenize (s ++ "\n" ++ t) = .ok all ↔
      ∃ more, tokenize t = .ok more ∧ all = tokens ++ more.map (Token.shift n)) ∧
    (∀ e, tokenize (s ++ "\n" ++ t) = .error e ↔
      ∃ cause, tokenize t = .error cause ∧ e = cause.shift n) ∧
    (scan (s ++ "\n" ++ t)).tokens = tokens ++ (scan t).tokens.map (Token.shift n) := by
  have hscan := scan_below (t := t) h
  refine ⟨fun all => ?_, fun e => ?_, congrArg Scan.tokens hscan⟩
  · simp only [tokenize_eq_ok_iff_scan, hscan, Scan.prepend, Scan.shift, Option.map_eq_none_iff]
    constructor
    · rintro ⟨hfailure, rfl⟩
      exact ⟨_, ⟨hfailure, rfl⟩, rfl⟩
    · rintro ⟨_, ⟨hfailure, rfl⟩, rfl⟩
      exact ⟨hfailure, rfl⟩
  · simp only [tokenize_eq_error_iff_scan, hscan, Scan.prepend, Scan.shift, Option.map_eq_some_iff]
    exact exists_congr fun cause => and_congr_right fun _ => eq_comm

/-- A text that ends in a sign and a comment, and below it one with a quote that is not closed: the quote
    stands on the last line of four, and the tokens before it are kept. -/
theorem tokenize_below_of_unclosed :
    let above := "x := \"a\nb\" +// no more"
    let tokens : List Token := [⟨.identifier, "x", 0⟩, ⟨.declare, ":=", 0⟩, ⟨.text, "a\nb", 0⟩,
      ⟨.binaryOperator, "+", 1⟩]
    tokenize above = .ok (tokens ++ [Token.eof 2]) ∧
      tokenize (above ++ "\n" ++ "y\n\"z") = .error ⟨3, .unterminatedText⟩ ∧
      (scan (above ++ "\n" ++ "y\n\"z")).tokens = tokens ++ [⟨.identifier, "y", 2⟩] := by
  intro above tokens
  have habove : tokenize above = .ok (tokens ++ [Token.eof 2]) :=
    tokenize_eq_ok_iff_scan.2 (by decide +kernel)
  have hbelow : tokenize "y\n\"z" = .error ⟨1, .unterminatedText⟩ :=
    tokenize_eq_error_iff_scan.2 (by decide +kernel)
  have hkept : (scan "y\n\"z").tokens = [⟨.identifier, "y", 0⟩] := by decide +kernel
  obtain ⟨-, hfailure, htokens⟩ := tokenize_below (t := "y\n\"z") habove
  exact ⟨habove, (hfailure _).2 ⟨_, hbelow, rfl⟩, by rw [htokens, hkept]; rfl⟩

end Kiln
