/-
Module: Kiln.Proofs.Lexing.Cutting
Purpose: What it is to cut a source text into tokens. A text that the lexer accepts is a row of pieces, in
  order and without gap or overlap, each of which is as it has to be before the next; the tokens are the
  meanings of the lexemes among them, each on its own line. There is such a row only where the lexer
  accepts the text, and it leaves no choice of tokens.
Main exports: Piece.textOf, Piece.Cut, Piece.tokensOf, scanFrom_textOf, tokenize_eq_ok_iff
-/
import Mathlib.Tactic.SplitIfs
import Kiln.Proofs.Lexing.Lexemes

namespace Kiln

open Kiln.Text Lexer Lexing

namespace Piece

/-- The text that pieces make up. -/
def textOf (pieces : List Piece) : List Char := pieces.flatMap text

/-- Each piece is as it has to be before the text of those after it. -/
def Cut : List Piece → Prop
  | [] => True
  | p :: rest => p.Proper (textOf rest) ∧ Cut rest

/-- The token on the given line that a piece writes, if it writes one. -/
def token? (line : Nat) : Piece → Option Token
  | .lexeme text => (meaning? text).map fun (kind, value) => ⟨kind, value, line⟩
  | _ => none

/-- The tokens of pieces that stand after the text `before`. Each token lies on the line that is told by the
    line feeds before its first character. -/
def tokensOf (before : List Char) : List Piece → List Token
  | [] => []
  | p :: rest => (p.token? (before.count '\n')).toList ++ tokensOf (before ++ p.text) rest

@[simp]
theorem textOf_nil : textOf [] = [] := rfl

@[simp]
theorem textOf_cons (p : Piece) (rest : List Piece) : textOf (p :: rest) = p.text ++ textOf rest := by
  simp [textOf]

theorem Proper.text_ne_nil {p : Piece} {after : List Char} (h : p.Proper after) : p.text ≠ [] := by
  cases p with
  | lexeme text =>
      rintro (rfl : text = [])
      cases h.1
  | _ => simp [text]

end Piece

open Piece

/-! ### From pieces to tokens -/

theorem scanFrom_nil (line : Nat) : scanFrom line [] = ⟨[Token.eof line], none⟩ := by
  rw [scanFrom]

theorem scanFrom_of_trivia {line newlines : Nat} {c : Char} {text rest : List Char}
    (h : readLexeme c text = .trivia newlines rest) :
    scanFrom line (c :: text) = scanFrom (line + newlines) rest := by
  rw [scanFrom]
  split <;> simp_all

theorem scanFrom_of_token {line newlines : Nat} {c : Char} {text rest : List Char} {kind : TokenKind}
    {value : String} (h : readLexeme c text = .token kind value newlines rest) :
    scanFrom line (c :: text) = (scanFrom (line + newlines) rest).cons ⟨kind, value, line⟩ := by
  rw [scanFrom]
  split <;> simp_all

/-- One piece at the front of a text gives its token and lets the scan go on after it. -/
theorem Piece.Proper.scanFrom_append {p : Piece} {after : List Char} (h : p.Proper after) (line : Nat) :
    scanFrom line (p.text ++ after) =
      { scanFrom (line + p.text.count '\n') after with
        tokens := (p.token? line).toList ++ (scanFrom (line + p.text.count '\n') after).tokens } := by
  obtain ⟨c, run, hrun⟩ := List.exists_cons_of_ne_nil h.text_ne_nil
  have hread : readLexeme c (run ++ after) = p.reading after :=
    h.readLexeme_eq (by rw [hrun, List.cons_append])
  rw [hrun, List.cons_append, ← hrun]
  cases p with
  | blank d => exact scanFrom_of_trivia hread
  | comment text => exact scanFrom_of_trivia hread
  | lexeme text =>
      obtain ⟨⟨kind, value⟩, hmeans⟩ := Option.isSome_iff_exists.1 h.1
      simp only [reading, hmeans] at hread
      rw [scanFrom_of_token hread]
      simp [token?, hmeans, Scan.cons, Piece.text]

/-- A row of pieces gives the tokens of its lexemes, and one more on the line after the last line feed. -/
theorem scanFrom_textOf {pieces : List Piece} (h : Cut pieces) (before : List Char) :
    scanFrom (before.count '\n') (textOf pieces)
      = ⟨tokensOf before pieces ++ [Token.eof ((before ++ textOf pieces).count '\n')], none⟩ := by
  induction pieces generalizing before with
  | nil => simp [scanFrom_nil, tokensOf]
  | cons p rest ih =>
      obtain ⟨hp, hrest⟩ := h
      have hcount : before.count '\n' + p.text.count '\n' = (before ++ p.text).count '\n' := by
        rw [List.count_append]
      rw [textOf_cons, hp.scanFrom_append, hcount, ih hrest]
      simp [tokensOf]

/-! ### From tokens to pieces -/

/-- A scan without failure has gone over a row of pieces. -/
theorem exists_cut_of_scanFrom {line : Nat} {text : List Char} (h : (scanFrom line text).failure = none) :
    ∃ pieces, Cut pieces ∧ textOf pieces = text := by
  fun_induction scanFrom line text with
  | case1 line => exact ⟨[], trivial, rfl⟩
  | case2 line c text newlines rest hread ih =>
      have hrest : (readLexeme c text).rest? = some rest := by
        rw [hread]
        rfl
      obtain ⟨p, hp, htext⟩ := exists_proper hrest
      obtain ⟨pieces, hcut, rfl⟩ := ih h
      exact ⟨p :: pieces, ⟨hp, hcut⟩, by rw [textOf_cons, htext]⟩
  | case3 line c text kind value newlines rest hread ih =>
      have hrest : (readLexeme c text).rest? = some rest := by
        rw [hread]
        rfl
      obtain ⟨p, hp, htext⟩ := exists_proper hrest
      obtain ⟨pieces, hcut, rfl⟩ := ih h
      exact ⟨p :: pieces, ⟨hp, hcut⟩, by rw [textOf_cons, htext]⟩
  | case4 => cases h

/-! ### The line feed that is read after the text -/

theorem getLast?_of_decode? {body decoded : List Char} (h : decode? body = some decoded) :
    body.getLast? = some '"' := by
  fun_induction decode? body generalizing decoded with
  | case1 => cases h
  | case2 rest hempty =>
      rw [List.isEmpty_iff.1 hempty]
      rfl
  | case3 => cases h
  | case4 => cases h
  | case5 hq e rest ih =>
      obtain ⟨d, -, h⟩ := Option.bind_eq_some_iff.1 h
      obtain ⟨tail, htail, -⟩ := Option.map_eq_some_iff.1 h
      simp [List.getLast?_cons, ih htail]
  | case6 c rest hq hb ih =>
      obtain ⟨tail, htail, -⟩ := Option.map_eq_some_iff.1 h
      simp [List.getLast?_cons, ih htail]

/-- No lexeme ends with a line feed. -/
theorem getLast?_of_meaning? {text : List Char} (h : (meaning? text).isSome = true) :
    text.getLast? ≠ some '\n' := by
  cases text with
  | nil => simp
  | cons c run =>
      by_cases hquote : c = '"'
      · subst hquote
        simp only [meaning?_cons, if_true, Option.isSome_map, Option.isSome_iff_exists] at h
        obtain ⟨decoded, hdecoded⟩ := h
        simp [List.getLast?_cons, getLast?_of_decode? hdecoded]
      · intro hlast
        exact newline_notMem_of_meaning? hquote h (List.mem_of_getLast? hlast)

/-- A space or a line feed carries no lexeme on. -/
theorem carriesOn_blank {next : Char} (h : next = ' ' ∨ next = '\n') (text : List Char) :
    carriesOn next text = false := by
  cases text with
  | nil => rfl
  | cons c run =>
      obtain ⟨hnumeric, hword, hslash⟩ : (isNumeric next || isWordStart next) = false ∧
          isWordPart next = false ∧ (next == '/') = false := by
        rcases h with rfl | rfl <;> decide
      have hsymbol : symbols.any (fun s => s.text == (c :: run) ++ [next]) = false := by
        rw [List.any_eq_false]
        intro s hs htext
        have hmem : next ∈ s.text := by
          rw [beq_iff_eq.1 htext]
          simp
        obtain ⟨hspace, hnewline⟩ := blank_notMem_of_mem_symbols s hs
        rcases h with rfl | rfl
        · exact hspace hmem
        · exact hnewline hmem
      rw [carriesOn_cons, hnumeric, hword, hsymbol, hslash, Bool.and_false]
      split_ifs <;> rfl

namespace Piece

/-- No piece looks past a line feed that follows it. -/
theorem proper_append_newline_iff {p : Piece} {after more : List Char} :
    p.Proper (after ++ '\n' :: more) ↔ p.Proper after := by
  cases after with
  | cons c rest => cases p <;> rfl
  | nil =>
      cases p with
      | blank d => rfl
      | comment text => simp [Proper]
      | lexeme text => simp [Proper, carriesOn_blank]

theorem textOf_append (first second : List Piece) :
    textOf (first ++ second) = textOf first ++ textOf second := by
  simp [textOf]

/-- A line feed can follow any row of pieces. -/
theorem cut_append_newline_iff {pieces : List Piece} :
    Cut (pieces ++ [.blank '\n']) ↔ Cut pieces := by
  induction pieces with
  | nil => simp [Cut, Proper, blanks]
  | cons p rest ih =>
      have hproper : p.Proper (textOf (rest ++ [.blank '\n'])) ↔ p.Proper (textOf rest) := by
        rw [textOf_append]
        exact proper_append_newline_iff
      exact and_congr hproper ih

theorem Proper.eq_blank_of_getLast? {p : Piece} {after : List Char} (h : p.Proper after)
    (hlast : p.text.getLast? = some '\n') : p = .blank '\n' := by
  cases p with
  | blank c =>
      cases hlast
      rfl
  | comment text =>
      have hmem : '\n' ∈ '/' :: '/' :: text := List.mem_of_getLast? hlast
      simp [h.1] at hmem
  | lexeme text => exact absurd hlast (getLast?_of_meaning? h.1)

theorem Cut.proper_last {front : List Piece} {p : Piece} (h : Cut (front ++ [p])) : p.Proper [] := by
  induction front with
  | nil => exact h.1
  | cons q rest ih => exact ih h.2

/-- A row of pieces whose text ends with a line feed has that line feed as its last piece. -/
theorem Cut.exists_eq_append_newline {pieces : List Piece} (h : Cut pieces) {text : List Char}
    (htext : textOf pieces = text ++ ['\n']) :
    ∃ front, pieces = front ++ [.blank '\n'] ∧ textOf front = text := by
  rcases List.eq_nil_or_concat pieces with rfl | ⟨front, p, rfl⟩
  · simp at htext
  · rw [List.concat_eq_append] at h htext ⊢
    have hp := h.proper_last
    have hlast : p.text.getLast? = some '\n' := by
      obtain ⟨c, run, hrun⟩ := List.exists_cons_of_ne_nil hp.text_ne_nil
      have := congrArg List.getLast? htext
      simpa [textOf_append, hrun, List.getLast?_append] using this
    obtain rfl := hp.eq_blank_of_getLast? hlast
    refine ⟨front, rfl, ?_⟩
    rw [textOf_append] at htext
    exact List.append_cancel_right htext

theorem tokensOf_append_newline (pieces : List Piece) (before : List Char) :
    tokensOf before (pieces ++ [.blank '\n']) = tokensOf before pieces := by
  induction pieces generalizing before with
  | nil => rfl
  | cons p rest ih => simp [tokensOf, ih]

end Piece

/-- A text that is made up of a row of pieces is cut into the tokens of its lexemes. -/
theorem tokenize_of_cut {source : String} {pieces : List Piece} (htext : textOf pieces = source.toList)
    (h : Cut pieces) :
    tokenize source = .ok (tokensOf [] pieces ++ [Token.eof (source.toList.count '\n' + 1)]) := by
  have hscan := scanFrom_textOf (cut_append_newline_iff.2 h) []
  have hall : textOf (pieces ++ [.blank '\n']) = source.toList ++ ['\n'] := by
    rw [textOf_append, htext]
    rfl
  rw [tokensOf_append_newline, hall, List.nil_append, List.count_append] at hscan
  have hsource : scan source
      = ⟨tokensOf [] pieces ++ [Token.eof (source.toList.count '\n' + 1)], none⟩ := hscan
  rw [tokenize, hsource]

/-- A text that can be cut into tokens is made up of a row of pieces. -/
theorem exists_cut_of_tokenize {source : String} {tokens : List Token} (h : tokenize source = .ok tokens) :
    ∃ pieces, textOf pieces = source.toList ∧ Cut pieces := by
  have hfailure : (scan source).failure = none := by
    unfold tokenize at h
    cases hf : (scan source).failure with
    | none => rfl
    | some e => simp [hf] at h
  obtain ⟨padded, hpadded, htext⟩ := exists_cut_of_scanFrom hfailure
  obtain ⟨pieces, rfl, hpieces⟩ := hpadded.exists_eq_append_newline htext
  exact ⟨pieces, hpieces, cut_append_newline_iff.1 hpadded⟩

/-- The tokens of a source text are those of a row of pieces that makes up the text, and one for its end; the
    text can be cut into tokens exactly when there is such a row. -/
theorem tokenize_eq_ok_iff (source : String) (tokens : List Token) :
    tokenize source = .ok tokens ↔
      ∃ pieces, textOf pieces = source.toList ∧ Cut pieces ∧
        tokens = tokensOf [] pieces ++ [Token.eof (source.toList.count '\n' + 1)] := by
  constructor
  · intro h
    obtain ⟨pieces, htext, hcut⟩ := exists_cut_of_tokenize h
    refine ⟨pieces, htext, hcut, ?_⟩
    rw [tokenize_of_cut htext hcut, Except.ok.injEq] at h
    exact h.symm
  · rintro ⟨pieces, htext, hcut, rfl⟩
    exact tokenize_of_cut htext hcut

end Kiln
