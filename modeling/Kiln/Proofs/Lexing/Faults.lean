/-
Module: Kiln.Proofs.Lexing.Faults
Purpose: Where a scan fails. A text that cannot be cut into tokens is a row of pieces up to some point, and
  goes on with the beginning of a lexeme that its next character breaks off. The failure is placed on the line
  of that character; a quoted text that is not closed is broken off at its opening quote.
Main exports: Piece.CutBefore, Lexing.Breaks, Lexing.breaksOff_of_readLexeme, exists_breaks_of_tokenize
-/
import Kiln.Proofs.Lexing.Joining

namespace Kiln

open Kiln.Text Lexer Lexing

/-- Each piece is as it has to be before the text of those after it, which `after` follows. -/
def Piece.CutBefore (after : List Char) : List Piece → Prop
  | [] => True
  | p :: rest => p.Proper (textOf rest ++ after) ∧ CutBefore after rest

namespace Lexing

/-- After the characters `front` of a lexeme, the first character of the text breaks it off, for this reason. -/
inductive Breaks : List Char → List Char → LexError → Prop where
  /-- The character begins no lexeme. -/
  | unrecognized {c : Char} {rest : List Char} (blank : c ∉ blanks) (quote : c ≠ '"')
      (numeric : isNumeric c = false) (letter : isLetter c = false)
      (noSign : ∀ sign ∈ signs, ¬ sign.1.toList <+: c :: rest) : Breaks [] (c :: rest) (.unrecognized c)
  /-- The character goes on with a number, but is not numeric. -/
  | letterInNumber {run rest : List Char} {c : Char} (nonempty : run ≠ [])
      (numbers : run.all isNumeric = true) (numeric : isNumeric c = false) (letter : isLetter c = true) :
      Breaks run (c :: rest) .letterInNumber
  /-- The quote opens a text that nothing closes. -/
  | unterminatedText {rest : List Char}
      (unclosed : ∀ body after, body ++ after = rest → decode? body = none) :
      Breaks [] ('"' :: rest) .unterminatedText
  /-- The character stands after a backslash in a quoted text, but has no escape. -/
  | unknownEscape {body decoded rest : List Char} {c : Char} (inside : decode? (body ++ ['"']) = some decoded)
      (unknown : escapes.lookup c = none) : Breaks ('"' :: body ++ ['\\']) (c :: rest) (.unknownEscape c)

/-- The text begins with a lexeme that is broken off, after so many line feeds of its own. -/
def BreaksOff (text : List Char) (cause : LexError) (newlines : Nat) : Prop :=
  ∃ front after, front ++ after = text ∧ Breaks front after cause ∧ newlines = front.count '\n'

/-! ### Quoted texts that break off -/

/-- Where no closing quote is found, there is none. -/
theorem decode?_eq_none_of_readText {read text : List Char} {n : Nat} (h : readText read n text = .unterminated)
    {body after : List Char} (htext : body ++ after = text) : decode? body = none := by
  cases hbody : decode? body with
  | none => rfl
  | some decoded =>
      rw [← htext, readText_of_decode? hbody] at h
      cases h

/-- Up to an unknown escape, the text could be closed at any time. -/
theorem exists_decode?_of_unknownEscape {read text : List Char} {n m : Nat} {c : Char}
    (h : readText read n text = .unknownEscape c m) :
    ∃ body decoded rest, body ++ '\\' :: c :: rest = text ∧ decode? (body ++ ['"']) = some decoded ∧
      escapes.lookup c = none ∧ m = n + body.count '\n' := by
  fun_induction readText read n text with
  | case1 => cases h
  | case2 => cases h
  | case3 => cases h
  | case4 read n e rest d hd hq ih =>
      obtain ⟨body, decoded, rest', rfl, hbody, hc, hm⟩ := ih h
      have hne := unescape_ne_newline hd
      refine ⟨'\\' :: e :: body, d :: decoded, rest', rfl, ?_, hc, by simp [hm, hne]⟩
      rw [List.cons_append, List.cons_append, decode?_escape hd, hbody, Option.map_some]
  | case5 read n e rest hd hq =>
      cases h
      exact ⟨[], [], rest, rfl, rfl, unescape_eq c ▸ hd, rfl⟩
  | case6 read n c' rest hq hb ih =>
      obtain ⟨body, decoded, rest', rfl, hbody, hc, hm⟩ := ih h
      refine ⟨c' :: body, c' :: decoded, rest', rfl, ?_, hc, ?_⟩
      · rw [List.cons_append, decode?_plain hq hb, hbody, Option.map_some]
      · rw [hm, List.count_cons]
        by_cases hc' : c' = '\n'
        · simp only [hc', beq_self_eq_true, if_true]
          omega
        · simp [hc']

/-! ### What a failed reading tells -/

theorem breaksOff_of_readQuoted {rest : List Char} {cause : LexError} {newlines : Nat}
    (h : readQuoted rest = .failure cause newlines) : BreaksOff ('"' :: rest) cause newlines := by
  unfold readQuoted at h
  split at h
  · cases h
  · next hread =>
    cases h
    exact ⟨[], '"' :: rest, rfl, .unterminatedText fun _ _ => decode?_eq_none_of_readText hread, rfl⟩
  · next c m hread =>
    cases h
    obtain ⟨body, decoded, after, rfl, hbody, hc, hm⟩ := exists_decode?_of_unknownEscape hread
    refine ⟨'"' :: body ++ ['\\'], c :: after, by simp, .unknownEscape hbody hc, ?_⟩
    simp [hm]

theorem breaksOff_of_readNumber {c : Char} {rest : List Char} {cause : LexError} {newlines : Nat}
    (hc : isNumeric c = true) (h : readNumber c rest = .failure cause newlines) :
    BreaksOff (c :: rest) cause newlines := by
  unfold readNumber at h
  dsimp only at h
  split at h
  · next hword =>
    cases h
    have hrun : (c :: rest.takeWhile isNumeric).all isNumeric = true := by simp [hc]
    cases hafter : rest.dropWhile isNumeric with
    | nil => simp [hafter] at hword
    | cons d after =>
        have hd : isNumeric d = false := head?_dropWhile rest d (by simp [hafter])
        rw [hafter, List.head?_cons, Option.any_some] at hword
        refine ⟨c :: rest.takeWhile isNumeric, d :: after, ?_, ?_, ?_⟩
        · rw [List.cons_append, ← hafter, List.takeWhile_append_dropWhile]
        · exact .letterInNumber (List.cons_ne_nil _ _) hrun hd hword
        · rw [List.count_eq_zero.2 (newline_notMem_of_all (p := isNumeric) (by decide) hrun)]
  · cases h

theorem not_prefix_of_symbolAt?_eq_none {text : List Char} (h : symbolAt? text = none) :
    ∀ sign ∈ signs, ¬ sign.1.toList <+: text := by
  intro sign hsign hbegins
  obtain ⟨s, hs, hsame⟩ := exists_symbol_of_mem sign hsign
  have hnot := List.find?_eq_none.1 h s hs
  rw [hsame, List.isPrefixOf_iff_prefix.2 hbegins] at hnot
  exact hnot rfl

/-- Where the lexer reads no lexeme, one is broken off. -/
theorem breaksOff_of_readLexeme {c : Char} {rest : List Char} {cause : LexError} {newlines : Nat}
    (h : readLexeme c rest = .failure cause newlines) : BreaksOff (c :: rest) cause newlines := by
  unfold readLexeme at h
  split at h
  · cases h
  next hskipped =>
  split at h
  · cases h
  next hnewline =>
  split at h
  · next hquote =>
    subst hquote
    exact breaksOff_of_readQuoted h
  next hquote =>
  split at h
  · cases h
  split at h
  · cases h
  next hsymbol =>
  split at h
  · next hnumeric => exact breaksOff_of_readNumber hnumeric h
  next hnumeric =>
  split at h
  · cases h
  next hword =>
  cases h
  have hblank : c ∉ blanks := fun hmem => ((mem_blanks_iff c).1 hmem).elim hskipped hnewline
  exact ⟨[], c :: rest, rfl, .unrecognized hblank hquote (Bool.eq_false_iff.2 hnumeric)
    (Bool.eq_false_iff.2 hword) (not_prefix_of_symbolAt?_eq_none hsymbol), rfl⟩

end Lexing

/-! ### Whole texts -/

namespace Piece

/-- What is read of a piece counts its line feeds. -/
theorem Proper.newlines_eq {p : Piece} {after : List Char} (h : p.Proper after) :
    (∀ newlines rest, p.reading after = .trivia newlines rest → newlines = p.text.count '\n') ∧
      ∀ kind value newlines rest, p.reading after = .token kind value newlines rest →
        newlines = p.text.count '\n' := by
  cases p with
  | blank c => simp [reading, eq_comm]
  | comment text => simp [reading, eq_comm]
  | lexeme text =>
      obtain ⟨⟨kind, value⟩, hmeans⟩ := Option.isSome_iff_exists.1 h.1
      simp only [reading, hmeans]
      constructor
      · rintro _ _ ⟨⟩
      · rintro _ _ _ _ ⟨⟩
        rfl

theorem count_textOf_cons (p : Piece) (pieces : List Piece) (front : List Char) :
    (textOf (p :: pieces) ++ front).count '\n'
      = p.text.count '\n' + (textOf pieces ++ front).count '\n' := by
  rw [textOf_cons, List.append_assoc, List.count_append]

end Piece

open Piece in
/-- A scan that fails has gone over a row of pieces, up to a lexeme that is broken off. -/
theorem exists_breaks_of_scanFrom {line : Nat} {text : List Char} {e : Located LexError}
    (h : (scanFrom line text).failure = some e) :
    ∃ pieces front after, CutBefore (front ++ after) pieces ∧ textOf pieces ++ (front ++ after) = text ∧
      Breaks front after e.value ∧ e.line = line + (textOf pieces ++ front).count '\n' := by
  fun_induction scanFrom line text with
  | case1 line => cases h
  | case2 line c text newlines rest hread ih =>
      have hrest : (readLexeme c text).rest? = some rest := by
        rw [hread]
        rfl
      obtain ⟨p, hp, htext⟩ := exists_proper hrest
      obtain ⟨pieces, front, after, hcut, rfl, hbreaks, hline⟩ := ih h
      have hnewlines := hp.newlines_eq.1 newlines _ (by rw [← hread, hp.readLexeme_eq htext])
      refine ⟨p :: pieces, front, after, ⟨hp, hcut⟩, ?_, hbreaks, ?_⟩
      · rw [textOf_cons, List.append_assoc, htext]
      · rw [hline, count_textOf_cons, hnewlines, Nat.add_assoc]
  | case3 line c text kind value newlines rest hread ih =>
      have hrest : (readLexeme c text).rest? = some rest := by
        rw [hread]
        rfl
      obtain ⟨p, hp, htext⟩ := exists_proper hrest
      obtain ⟨pieces, front, after, hcut, rfl, hbreaks, hline⟩ := ih h
      have hnewlines := hp.newlines_eq.2 kind value newlines _ (by rw [← hread, hp.readLexeme_eq htext])
      refine ⟨p :: pieces, front, after, ⟨hp, hcut⟩, ?_, hbreaks, ?_⟩
      · rw [textOf_cons, List.append_assoc, htext]
      · rw [hline, count_textOf_cons, hnewlines, Nat.add_assoc]
  | case4 line c text cause newlines hread =>
      cases h
      obtain ⟨front, after, htext, hbreaks, hnewlines⟩ := breaksOff_of_readLexeme hread
      exact ⟨[], front, after, trivial, htext, hbreaks, by simp [hnewlines]⟩

open Piece in
/-- A text that cannot be cut into tokens breaks off on the line of the failure. The text is read with one more
    line feed, which may be the character that breaks it off. -/
theorem exists_breaks_of_tokenize {source : String} {e : Located LexError} (h : tokenize source = .error e) :
    ∃ pieces front after, CutBefore (front ++ after) pieces ∧
      textOf pieces ++ (front ++ after) = source.toList ++ ['\n'] ∧ Breaks front after e.value ∧
      e.line = (textOf pieces ++ front).count '\n' := by
  obtain ⟨pieces, front, after, hcut, htext, hbreaks, hline⟩ :=
    exists_breaks_of_scanFrom (tokenize_eq_error_iff_scan.1 h)
  exact ⟨pieces, front, after, hcut, htext, hbreaks, by rw [hline, Nat.zero_add]⟩

end Kiln
