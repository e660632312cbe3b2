/-
Module: Kiln.Proofs.Lexing.Lexemes
Purpose: Lexemes without the lexer. What a lexeme means is told by its characters and the vocabulary alone,
  and so is whether the next character would carry it on. The lexer reads a lexeme at the front of a text
  exactly when the text begins with one that the rest does not carry on.
Main exports: Lexing.decode?, Lexing.meaning?, Lexing.carriesOn, Piece, Piece.Proper, Piece.reading,
  Lexing.meaning?_cons, Lexing.carriesOn_cons, Piece.Proper.readLexeme_eq, Piece.exists_proper
-/
import Kiln.Proofs.Lexing.Vocabulary

namespace Kiln

open Kiln.Text Lexer

namespace Lexing

/-! ### What lexemes mean -/

/-- The text that is written between an opening quote and a closing one, given all that follows the
    opening quote. -/
def decode? : List Char → Option (List Char)
  | [] => none
  | c :: rest =>
    if c = '"' then if rest.isEmpty then some [] else none
    else if c = '\\' then
      match rest with
      | [] => none
      | e :: rest => (escapes.lookup e).bind fun d => (decode? rest).map (d :: ·)
    else (decode? rest).map (c :: ·)

/-- The kind and the value of the token that a lexeme writes. The first character tells what sort of lexeme
    it is; a numeric one begins a number even where it is also alphabetic. -/
def meaning? : List Char → Option (TokenKind × String)
  | [] => none
  | c :: rest =>
    if c = '"' then (decode? rest).map fun value => (.text, String.ofList value)
    else if isNumeric c then
      if rest.all isNumeric then some (.number, String.ofList (c :: rest)) else none
    else if isLetter c then
      if rest.all isLetterOrNumber then
        some (kindOfWord (String.ofList (c :: rest)), String.ofList (c :: rest))
      else none
    else (signs.lookup (String.ofList (c :: rest))).map fun kind => (kind, String.ofList (c :: rest))

/-- Whether the character `next` may not stand right after a lexeme: it would make a word, a number or a sign
    longer, turn a number into nothing, or turn a sign into a comment. -/
def carriesOn (next : Char) : List Char → Bool
  | [] => false
  | c :: rest =>
    if c = '"' then false
    else if isNumeric c then isNumeric next || isLetter next
    else if isLetter c then isLetterOrNumber next
    else (signs.lookup (String.ofList (c :: rest ++ [next]))).isSome || c == '/' && next == '/'

end Lexing

/-- A stretch of a source text. -/
inductive Piece where
  /-- A character of white space. -/
  | blank (c : Char)
  /-- Two slashes and the text after them. -/
  | comment (text : List Char)
  | lexeme (text : List Char)
deriving DecidableEq, Repr

namespace Piece

/-- The characters of a piece. -/
def text : Piece → List Char
  | .blank c => [c]
  | .comment text => '/' :: '/' :: text
  | .lexeme text => text

/-- A piece is as it has to be when `after` follows it: a comment goes on to the end of its line, and a lexeme
    means something and is not carried on. -/
def Proper (after : List Char) : Piece → Prop
  | .blank c => c ∈ Lexing.blanks
  | .comment text => '\n' ∉ text ∧ ∀ c ∈ after.head?, c = '\n'
  | .lexeme text => (Lexing.meaning? text).isSome = true ∧
    ∀ c ∈ after.head?, Lexing.carriesOn c text = false

/-- What the lexer makes of a piece that `after` follows. -/
def reading (after : List Char) (p : Piece) : Reading :=
  match p with
  | .lexeme text =>
    match Lexing.meaning? text with
    | some (kind, value) => .token kind value (text.count '\n') after
    | none => .trivia 0 after
  | _ => .trivia (p.text.count '\n') after

end Piece

namespace Lexing

/-! ### Lexemes by the tables of the lexer -/

theorem meaning?_cons (c : Char) (rest : List Char) :
    meaning? (c :: rest) =
      if c = '"' then (decode? rest).map fun value => (.text, String.ofList value)
      else if isNumeric c then
        if rest.all isNumeric then some (.number, String.ofList (c :: rest)) else none
      else if isWordStart c then
        if rest.all isWordPart then
          some (wordKind (String.ofList (c :: rest)), String.ofList (c :: rest))
        else none
      else (symbols.find? fun s => s.text == c :: rest).map fun s => (s.kind, String.ofList (c :: rest)) := by
  rw [meaning?, isWordStart_eq, isWordPart_eq, wordKind_eq, lookup_signs, Option.map_map]
  rfl

theorem carriesOn_cons (next c : Char) (rest : List Char) :
    carriesOn next (c :: rest) =
      if c = '"' then false
      else if isNumeric c then isNumeric next || isWordStart next
      else if isWordStart c then isWordPart next
      else symbols.any (fun s => s.text == c :: rest ++ [next]) || c == '/' && next == '/' := by
  rw [carriesOn, isWordStart_eq, isWordPart_eq, lookup_signs, Option.isSome_map, List.isSome_find?]

/-! ### Quoted texts -/

theorem unescape_ne_newline {e d : Char} (h : unescape e = some d) : e ≠ '\n' := by
  rintro rfl
  cases h

theorem decode?_escape {e d : Char} (h : unescape e = some d) (rest : List Char) :
    decode? ('\\' :: e :: rest) = (decode? rest).map (d :: ·) := by
  rw [unescape_eq] at h
  rw [decode?.eq_def]
  simp [h]

theorem decode?_plain {c : Char} (hq : c ≠ '"') (hb : c ≠ '\\') (rest : List Char) :
    decode? (c :: rest) = (decode? rest).map (c :: ·) := by
  rw [decode?.eq_def]
  simp [hq, hb]

theorem readText_quote (read rest : List Char) (n : Nat) :
    readText read n ('"' :: rest) = .closed (String.ofList read.reverse) n rest := by
  rw [readText.eq_def]
  simp

theorem readText_escape {e d : Char} (h : unescape e = some d) (read rest : List Char) (n : Nat) :
    readText read n ('\\' :: e :: rest) = readText (d :: read) n rest := by
  rw [readText.eq_def]
  simp [h]

theorem readText_plain {c : Char} (hq : c ≠ '"') (hb : c ≠ '\\') (read rest : List Char) (n : Nat) :
    readText read n (c :: rest)
      = readText (c :: read) (if c = '\n' then n + 1 else n) rest := by
  rw [readText.eq_def]
  simp [hq, hb]

/-- What the lexer reads up to the closing quote is what is written there. -/
theorem exists_decode?_of_readText {read text after : List Char} {n m : Nat} {value : String}
    (h : readText read n text = .closed value m after) :
    ∃ body decoded, body ++ after = text ∧ decode? body = some decoded ∧
      value = String.ofList (read.reverse ++ decoded) ∧ m = n + body.count '\n' := by
  fun_induction readText read n text with
  | case1 => cases h
  | case2 read n rest =>
      cases h
      exact ⟨['"'], [], rfl, rfl, by simp, by simp⟩
  | case3 => cases h
  | case4 read n e rest d hd hq ih =>
      obtain ⟨body, decoded, rfl, hbody, hvalue, hm⟩ := ih h
      have hne := unescape_ne_newline hd
      refine ⟨'\\' :: e :: body, d :: decoded, rfl, ?_, by simpa using hvalue, ?_⟩
      · rw [decode?_escape hd, hbody, Option.map_some]
      · simp [hm, hne]
  | case5 => cases h
  | case6 read n c rest hq hb ih =>
      obtain ⟨body, decoded, rfl, hbody, hvalue, hm⟩ := ih h
      refine ⟨c :: body, c :: decoded, rfl, ?_, by simpa using hvalue, ?_⟩
      · rw [decode?_plain hq hb, hbody, Option.map_some]
      · rw [hm, List.count_cons]
        by_cases hc : c = '\n'
        · simp only [hc, beq_self_eq_true, if_true]
          omega
        · simp [hc]

/-- What is written up to a closing quote is what the lexer reads. -/
theorem readText_of_decode? {body decoded : List Char} (h : decode? body = some decoded)
    (read after : List Char) (n : Nat) :
    readText read n (body ++ after)
      = .closed (String.ofList (read.reverse ++ decoded)) (n + body.count '\n') after := by
  fun_induction decode? body generalizing decoded read n with
  | case1 => cases h
  | case2 rest hempty =>
      cases h
      rw [List.isEmpty_iff.1 hempty, List.singleton_append, readText_quote]
      simp
  | case3 => cases h
  | case4 => cases h
  | case5 hq e rest ih =>
      obtain ⟨d, hd, h⟩ := Option.bind_eq_some_iff.1 h
      rw [← unescape_eq] at hd
      obtain ⟨tail, htail, rfl⟩ := Option.map_eq_some_iff.1 h
      have hne := unescape_ne_newline hd
      rw [List.cons_append, List.cons_append, readText_escape hd, ih htail]
      simp [hne]
  | case6 c rest hq hb ih =>
      obtain ⟨tail, htail, rfl⟩ := Option.map_eq_some_iff.1 h
      rw [List.cons_append, readText_plain hq hb, ih htail, List.count_cons]
      by_cases hc : c = '\n'
      · simp [hc]
        omega
      · simp [hc]

/-! ### Symbols -/

/-- No symbol begins with one that stands before it in the table. -/
theorem symbols_pairwise : symbols.Pairwise fun a b => ¬ a.text <+: b.text := by decide

theorem length_of_mem_symbols : ∀ s ∈ symbols, s.text.length = 1 ∨ s.text.length = 2 := by decide

theorem blank_notMem_of_mem_symbols : ∀ s ∈ symbols, ' ' ∉ s.text ∧ '\n' ∉ s.text := by decide

theorem all_head_symbols : symbols.all (fun s => s.text.head?.all fun c =>
    !isSkipped c && c != '\n' && c != '"' && !isNumeric c && !isWordStart c) = true := by decide +kernel

/-- The first character of a symbol begins nothing else but a comment. -/
theorem head_of_mem_symbols {s : Symbol} (hs : s ∈ symbols) {c : Char} (hc : s.text.head? = some c) :
    isSkipped c = false ∧ c ≠ '\n' ∧ c ≠ '"' ∧ isNumeric c = false ∧ isWordStart c = false := by
  have hall := List.all_eq_true.1 all_head_symbols s hs
  rw [hc] at hall
  simpa [and_assoc] using hall

theorem mem_and_prefix_of_symbolAt? {text : List Char} {s : Symbol} (h : symbolAt? text = some s) :
    s ∈ symbols ∧ s.text <+: text := by
  have hfound := List.find?_some (p := fun t : Symbol => t.text.isPrefixOf text) h
  exact ⟨List.mem_of_find?_eq_some h, List.isPrefixOf_iff_prefix.1 hfound⟩

/-- Of a symbol and any other one that begins with it, the table has the longer one first. -/
theorem not_prefix_of_find? {text : List Char} {s t : Symbol} (h : symbolAt? text = some s)
    (ht : t ∈ symbols) (hbegins : t.text <+: text) : t = s ∨ ¬ s.text <+: t.text := by
  obtain ⟨-, before, behind, hsplit, hbefore⟩ := List.find?_eq_some_iff_append.1 h
  have hpairs := symbols_pairwise
  rw [hsplit] at ht hpairs
  rcases List.mem_append.1 ht with ht | ht
  · have hnot := hbefore t ht
    rw [List.isPrefixOf_iff_prefix.2 hbegins] at hnot
    cases hnot
  · rcases List.mem_cons.1 ht with rfl | ht
    · exact .inl rfl
    · exact .inr ((List.pairwise_cons.1 (List.pairwise_append.1 hpairs).2.1).1 t ht)

/-- The symbol found at the front of a text is not carried on by what follows it. -/
theorem exists_append_of_symbolAt? {text : List Char} {s : Symbol} (h : symbolAt? text = some s) :
    s ∈ symbols ∧ ∃ after, s.text ++ after = text ∧
      ∀ c ∈ after.head?, symbols.any (fun t => t.text == s.text ++ [c]) = false := by
  obtain ⟨hmem, after, hafter⟩ := mem_and_prefix_of_symbolAt? h
  refine ⟨hmem, after, hafter, fun c hc => ?_⟩
  obtain ⟨rest, rfl⟩ := List.head?_eq_some_iff.1 hc
  rw [List.any_eq_false]
  intro t ht hlonger
  have htext : t.text = s.text ++ [c] := by simpa using hlonger
  have hbegins : t.text <+: text := ⟨rest, by rw [htext, ← hafter]; simp⟩
  rcases not_prefix_of_find? h ht hbegins with rfl | hnot
  · simpa using congrArg List.length htext
  · exact hnot ⟨[c], htext.symm⟩

/-- A symbol that is not carried on is found. -/
theorem symbolAt?_append {s : Symbol} (hs : s ∈ symbols) {after : List Char}
    (h : ∀ c ∈ after.head?, symbols.any (fun t => t.text == s.text ++ [c]) = false) :
    symbolAt? (s.text ++ after) = some s := by
  have hsome : (symbolAt? (s.text ++ after)).isSome = true := by
    rw [symbolAt?, List.find?_isSome]
    exact ⟨s, hs, List.isPrefixOf_iff_prefix.2 (List.prefix_append _ _)⟩
  obtain ⟨t, ht⟩ := Option.isSome_iff_exists.1 hsome
  obtain ⟨hmem, hbegins⟩ := mem_and_prefix_of_symbolAt? ht
  rcases not_prefix_of_find? ht hs (List.prefix_append _ _) with rfl | hnot
  · exact ht
  · -- the two begin the same text, so `t` is the longer one, by one character
    obtain ⟨more, hmore⟩ : s.text <+: t.text :=
      (List.prefix_or_prefix_of_prefix hbegins (List.prefix_append _ _)).resolve_left hnot
    have hlength : s.text.length + more.length = t.text.length := by
      rw [← hmore, List.length_append]
    cases more with
    | nil =>
        have hsame : s.text = t.text := by rw [← hmore, List.append_nil]
        exact absurd (hsame ▸ List.prefix_refl _) hnot
    | cons c more =>
        have hnil : more = [] := by
          have hs' := length_of_mem_symbols s hs
          have ht' := length_of_mem_symbols t hmem
          rw [List.length_cons] at hlength
          exact List.eq_nil_of_length_eq_zero (by omega)
        have hhead : c ∈ after.head? := by
          rw [← hmore, List.prefix_append_right_inj] at hbegins
          obtain ⟨rest, rfl⟩ := hbegins
          rfl
        have hno := h c hhead
        rw [List.any_eq_false] at hno
        exact absurd (by rw [← hmore, hnil]; exact beq_self_eq_true _) (hno t hmem)

/-- Where a numeric character or a letter stands, there is no symbol. -/
theorem symbolAt?_eq_none {c : Char} (h : isNumeric c = true ∨ isWordStart c = true)
    (rest : List Char) : symbolAt? (c :: rest) = none := by
  cases hs : symbolAt? (c :: rest) with
  | none => rfl
  | some s =>
      obtain ⟨hmem, after, hafter, -⟩ := exists_append_of_symbolAt? hs
      have hlength := length_of_mem_symbols s hmem
      cases htext : s.text with
      | nil => simp [htext] at hlength
      | cons d more =>
          rw [htext] at hafter
          cases hafter
          have hhead := head_of_mem_symbols hmem (c := c) (by rw [htext]; rfl)
          rcases h with h | h
          · rw [h] at hhead
            simp at hhead
          · rw [h] at hhead
            simp at hhead

/-- Texts tell symbols apart. -/
theorem find?_symbols {s : Symbol} (hs : s ∈ symbols) :
    symbols.find? (fun t => t.text == s.text) = some s := by
  revert s
  decide

/-! ### What the lexer reads at the front of a text -/

/-- White space, quotes and slashes are neither numeric nor letters. -/
theorem notAlphanumeric_of_mem {d : Char} (h : d ∈ [' ', '\t', '\r', '\n', '"', '/']) :
    isNumeric d = false ∧ isWordStart d = false := by
  simp only [List.mem_cons, List.not_mem_nil, or_false] at h
  rcases h with rfl | rfl | rfl | rfl | rfl | rfl <;> decide

/-- A numeric character or a letter begins a number or a word. -/
theorem readLexeme_alphanumeric {c : Char} (h : isNumeric c = true ∨ isWordStart c = true)
    (rest : List Char) :
    readLexeme c rest = if isNumeric c then readNumber c rest else readWord c rest := by
  have hne : ∀ d ∈ [' ', '\t', '\r', '\n', '"', '/'], c ≠ d := by
    rintro d hd rfl
    obtain ⟨hnumeric, hword⟩ := notAlphanumeric_of_mem hd
    rcases h with h | h
    · rw [h] at hnumeric
      cases hnumeric
    · rw [h] at hword
      cases hword
  simp only [List.forall_mem_cons] at hne
  obtain ⟨hspace, htab, hreturn, hnewline, hquote, hslash, -⟩ := hne
  have hskip : isSkipped c = false := by simp [isSkipped, hspace, htab, hreturn]
  cases hnumeric : isNumeric c with
  | true => simp [readLexeme, hskip, hnewline, hquote, hslash, symbolAt?_eq_none h, hnumeric]
  | false =>
      rw [hnumeric] at h
      have hword : isWordStart c = true := h.resolve_left (by simp)
      simp [readLexeme, hskip, hnewline, hquote, hslash, symbolAt?_eq_none (.inr hword), hnumeric,
        hword]

/-- A run of characters with a property, which ends where the property does. -/
theorem takeWhile_dropWhile_append {p : Char → Bool} {run after : List Char} (hrun : run.all p = true)
    (hafter : ∀ c ∈ after.head?, p c = false) :
    (run ++ after).takeWhile p = run ∧ (run ++ after).dropWhile p = after := by
  have hall := List.all_eq_true.1 hrun
  rw [List.takeWhile_append_of_pos hall, List.dropWhile_append_of_pos hall]
  cases after with
  | nil => simp
  | cons c rest => simp [hafter c rfl]

theorem head?_dropWhile {p : Char → Bool} (text : List Char) :
    ∀ c ∈ (text.dropWhile p).head?, p c = false := by
  intro c hc
  have hnot := List.head?_dropWhile_not p text
  rw [Option.mem_def.1 hc] at hnot
  simpa using hnot

/-- A number that is not carried on is read as one. -/
theorem readNumber_append {c : Char} {run after : List Char} (hrun : run.all isNumeric = true)
    (h : ∀ d ∈ after.head?, (isNumeric d || isWordStart d) = false) :
    readNumber c (run ++ after) = .token .number (String.ofList (c :: run)) 0 after := by
  obtain ⟨htake, hdrop⟩ := takeWhile_dropWhile_append hrun fun d hd =>
    ((Bool.or_eq_false_iff).1 (h d hd)).1
  have hword : after.head?.any isWordStart = false := by
    cases hhead : after.head? with
    | none => rfl
    | some d => exact ((Bool.or_eq_false_iff).1 (h d hhead)).2
  simp [readNumber, htake, hdrop, hword]

/-- A word that is not carried on is read as one. -/
theorem readWord_append {c : Char} {run after : List Char} (hrun : run.all isWordPart = true)
    (h : ∀ d ∈ after.head?, isWordPart d = false) :
    readWord c (run ++ after) = .token (wordKind (String.ofList (c :: run)))
      (String.ofList (c :: run)) 0 after := by
  obtain ⟨htake, hdrop⟩ := takeWhile_dropWhile_append hrun h
  simp [readWord, htake, hdrop]

theorem newline_notMem_of_all {p : Char → Bool} (hp : p '\n' = false) {text : List Char}
    (h : text.all p = true) : '\n' ∉ text := by
  intro hmem
  have hnewline := List.all_eq_true.1 h _ hmem
  rw [hp] at hnewline
  cases hnewline

/-- A line feed in a lexeme lies between quotes. -/
theorem newline_notMem_of_meaning? {c : Char} {run : List Char} (hquote : c ≠ '"')
    (h : (meaning? (c :: run)).isSome = true) : '\n' ∉ c :: run := by
  simp only [meaning?_cons, if_neg hquote] at h
  split at h
  · next hnumeric =>
    split at h
    · next hrun => exact newline_notMem_of_all (p := isNumeric) (by decide) (by simp [hnumeric, hrun])
    · cases h
  split at h
  · next hword =>
    split at h
    · next hrun =>
      have hpart : isWordPart c = true := by
        simp only [isWordStart, isWordPart, isAlphanumeric, Bool.or_eq_true] at hword ⊢
        exact hword.imp_left .inl
      exact newline_notMem_of_all (p := isWordPart) (by decide) (by simp [hpart, hrun])
    · cases h
  · rw [Option.isSome_map, Option.isSome_iff_exists] at h
    obtain ⟨s, hs⟩ := h
    have htext : s.text = c :: run := by simpa using List.find?_some hs
    rw [← htext]
    exact (blank_notMem_of_mem_symbols s (List.mem_of_find?_eq_some hs)).2

/-- Only the sign for division begins with a slash. -/
theorem eq_slash_of_mem_symbols : ∀ s ∈ symbols, s.text.head? = some '/' → s.text = ['/'] := by decide

/-- A symbol that is not carried on, nor turned into a comment, is read as one. -/
theorem readLexeme_symbol {s : Symbol} (hs : s ∈ symbols) {c : Char} {run after : List Char}
    (htext : s.text = c :: run)
    (h : ∀ d ∈ after.head?,
      (symbols.any (fun t => t.text == (c :: run) ++ [d]) || c == '/' && d == '/') = false) :
    readLexeme c (run ++ after) = .token s.kind (String.ofList s.text) 0 after := by
  obtain ⟨hskip, hnewline, hquote, -, -⟩ := head_of_mem_symbols hs (c := c) (by rw [htext]; rfl)
  have hcomment : ¬ (c = '/' ∧ (run ++ after).head? = some '/') := by
    rintro ⟨rfl, hslash⟩
    have hrun : run = [] := by
      have hsingle := eq_slash_of_mem_symbols s hs (by rw [htext]; rfl)
      rw [htext] at hsingle
      exact (List.cons.inj hsingle).2
    subst hrun
    have hno := h '/' hslash
    simp at hno
  have hfound : symbolAt? (c :: (run ++ after)) = some s := by
    rw [← List.cons_append, ← htext]
    apply symbolAt?_append hs
    intro d hd
    rw [htext]
    exact (Bool.or_eq_false_iff.1 (h d hd)).1
  rw [readLexeme, if_neg (by simp [hskip]), if_neg hnewline, if_neg hquote, if_neg hcomment, hfound]
  simp [htext]

/-- A lexeme that is not carried on is read with its meaning. -/
theorem readLexeme_of_meaning? {c : Char} {run after : List Char} {kind : TokenKind} {value : String}
    (hmeans : meaning? (c :: run) = some (kind, value))
    (h : ∀ d ∈ after.head?, carriesOn d (c :: run) = false) :
    readLexeme c (run ++ after) = .token kind value ((c :: run).count '\n') after := by
  by_cases hquote : c = '"'
  · subst hquote
    simp only [meaning?_cons, if_true, Option.map_eq_some_iff, Prod.mk.injEq] at hmeans
    obtain ⟨decoded, hdecoded, rfl, rfl⟩ := hmeans
    have hread := readText_of_decode? hdecoded [] after 0
    simp [readLexeme, isSkipped, readQuoted, hread]
  · have hcount : (c :: run).count '\n' = 0 :=
      List.count_eq_zero.2 (newline_notMem_of_meaning? hquote (by rw [hmeans]; rfl))
    rw [hcount]
    cases hnumeric : isNumeric c with
    | true =>
        simp only [meaning?_cons, carriesOn_cons, if_neg hquote, hnumeric, if_true] at hmeans h
        split at hmeans
        · next hrun =>
          cases hmeans
          rw [readLexeme_alphanumeric (.inl hnumeric), if_pos hnumeric, readNumber_append hrun h]
        · cases hmeans
    | false =>
        cases hword : isWordStart c with
        | true =>
            simp only [meaning?_cons, carriesOn_cons, if_neg hquote, hnumeric, hword, if_true,
              Bool.false_eq_true, if_false] at hmeans h
            split at hmeans
            · next hrun =>
              cases hmeans
              rw [readLexeme_alphanumeric (.inr hword), if_neg (by simp [hnumeric]),
                readWord_append hrun h]
            · cases hmeans
        | false =>
            simp only [meaning?_cons, carriesOn_cons, if_neg hquote, hnumeric, hword, Bool.false_eq_true,
              if_false, Option.map_eq_some_iff, Prod.mk.injEq] at hmeans h
            obtain ⟨s, hs, rfl, rfl⟩ := hmeans
            have htext : s.text = c :: run := by simpa using List.find?_some hs
            rw [← htext]
            exact readLexeme_symbol (List.mem_of_find?_eq_some hs) htext h

/-- A comment is skipped up to the end of its line. -/
theorem readLexeme_comment {text after : List Char} (hline : '\n' ∉ text)
    (hend : ∀ c ∈ after.head?, c = '\n') : readLexeme '/' ('/' :: text ++ after) = .trivia 0 after := by
  have hall : ('/' :: text).all (fun d => decide (d ≠ '\n')) = true := by
    rw [List.all_eq_true]
    intro d hd
    have hne : d ≠ '\n' := by
      rintro rfl
      simp [hline] at hd
    simpa using hne
  have hrun : (('/' :: text) ++ after).dropWhile (fun d => decide (d ≠ '\n')) = after := by
    apply (takeWhile_dropWhile_append hall _).2
    intro d hd
    simp [hend d hd]
  rw [readLexeme, if_neg (by decide), if_neg (by decide), if_neg (by decide), if_pos (by simp), hrun]

end Lexing

open Lexing

/-- The lexer reads a piece that is as it has to be. -/
theorem Piece.Proper.readLexeme_eq {p : Piece} {after : List Char} (h : p.Proper after) {c : Char}
    {rest : List Char} (htext : p.text ++ after = c :: rest) : readLexeme c rest = p.reading after := by
  cases p with
  | blank d =>
      cases htext
      rcases (mem_blanks_iff c).1 h with h | rfl
      · have hne : c ≠ '\n' := by
          rintro rfl
          cases h
        simp [readLexeme, h, Piece.reading, Piece.text, hne]
      · simp [readLexeme, Piece.reading, Piece.text, isSkipped]
  | comment text =>
      cases htext
      have hcount : text.count '\n' = 0 := List.count_eq_zero.2 h.1
      have hread : readLexeme '/' ('/' :: text ++ after) = .trivia 0 after :=
        readLexeme_comment h.1 h.2
      simpa [Piece.reading, Piece.text, hcount] using hread
  | lexeme text =>
      obtain ⟨hmeans, hfollow⟩ := h
      cases text with
      | nil => cases hmeans
      | cons first run =>
          rw [Piece.text, List.cons_append] at htext
          obtain ⟨rfl, rfl⟩ := List.cons.inj htext
          obtain ⟨⟨kind, value⟩, hmeans⟩ := Option.isSome_iff_exists.1 hmeans
          rw [readLexeme_of_meaning? hmeans hfollow, Piece.reading, hmeans]

/-! ### Whatever the lexer reads is proper -/

namespace Piece

variable {c : Char} {rest after : List Char}

theorem exists_proper_of_readQuoted (h : (readQuoted rest).rest? = some after) :
    ∃ p : Piece, p.Proper after ∧ p.text ++ after = '"' :: rest := by
  unfold readQuoted at h
  split at h
  · next value newlines rest' hread =>
    cases h
    obtain ⟨body, decoded, rfl, hdecoded, -⟩ := exists_decode?_of_readText hread
    refine ⟨.lexeme ('"' :: body), ⟨?_, ?_⟩, rfl⟩
    · simp [meaning?_cons, hdecoded]
    · simp [carriesOn_cons]
  · cases h
  · cases h

theorem exists_proper_of_comment (text : List Char) :
    ∃ p : Piece, p.Proper (text.dropWhile fun d => decide (d ≠ '\n')) ∧
      p.text ++ text.dropWhile (fun d => decide (d ≠ '\n')) = '/' :: '/' :: text := by
  refine ⟨.comment (text.takeWhile fun d => decide (d ≠ '\n')), ⟨?_, ?_⟩, ?_⟩
  · intro hmem
    have hne := List.all_eq_true.1 List.all_takeWhile _ hmem
    simp at hne
  · intro d hd
    have hstop := head?_dropWhile _ d hd
    simpa using hstop
  · simp [Piece.text]

theorem exists_proper_of_symbolAt? {s : Symbol} (h : symbolAt? (c :: rest) = some s)
    (hcomment : ¬ (c = '/' ∧ rest.head? = some '/')) :
    ∃ p : Piece, p.Proper (rest.drop (s.text.length - 1)) ∧
      p.text ++ rest.drop (s.text.length - 1) = c :: rest := by
  obtain ⟨hmem, after, hafter, hfollow⟩ := exists_append_of_symbolAt? h
  have hlength := length_of_mem_symbols s hmem
  cases htext : s.text with
  | nil => simp [htext] at hlength
  | cons d run =>
      rw [htext, List.cons_append] at hafter
      rw [htext] at hfollow
      obtain ⟨rfl, rfl⟩ := List.cons.inj hafter
      obtain ⟨-, -, hquote, hnumeric, hword⟩ := head_of_mem_symbols hmem (c := d) (by rw [htext]; rfl)
      simp only [List.length_cons, Nat.add_sub_cancel, List.drop_left]
      refine ⟨.lexeme (d :: run), ⟨?_, fun e he => ?_⟩, rfl⟩
      · rw [meaning?_cons, ← htext, find?_symbols hmem]
        simp [hquote, hnumeric, hword]
      · simp only [carriesOn_cons, if_neg hquote, hnumeric, hword, Bool.false_eq_true, if_false,
          hfollow e he, Bool.false_or]
        rw [← Bool.not_eq_true]
        intro hslash
        simp only [Bool.and_eq_true, beq_iff_eq] at hslash
        obtain ⟨rfl, rfl⟩ := hslash
        have hsingle := eq_slash_of_mem_symbols s hmem (by rw [htext]; rfl)
        rw [htext] at hsingle
        obtain ⟨-, rfl⟩ := List.cons.inj hsingle
        exact hcomment ⟨rfl, he⟩

theorem exists_proper_of_readNumber (hnumeric : isNumeric c = true)
    (h : (readNumber c rest).rest? = some after) :
    ∃ p : Piece, p.Proper after ∧ p.text ++ after = c :: rest := by
  have hquote : c ≠ '"' := by
    rintro rfl
    exact absurd hnumeric (by decide)
  unfold readNumber at h
  dsimp only at h
  split at h
  · cases h
  · next hword =>
    cases h
    refine ⟨.lexeme (c :: rest.takeWhile isNumeric), ⟨?_, fun d hd => ?_⟩, ?_⟩
    · simp [meaning?_cons, hquote, hnumeric]
    · have hstop := head?_dropWhile _ d hd
      rw [Option.mem_def.1 hd, Option.any_some, Bool.not_eq_true] at hword
      simp [carriesOn_cons, hquote, hnumeric, hstop, hword]
    · simp [Piece.text]

theorem exists_proper_of_readWord (hnumeric : isNumeric c = false) (hword : isWordStart c = true)
    (h : (readWord c rest).rest? = some after) :
    ∃ p : Piece, p.Proper after ∧ p.text ++ after = c :: rest := by
  have hquote : c ≠ '"' := by
    rintro rfl
    exact absurd hword (by decide)
  cases h
  refine ⟨.lexeme (c :: rest.takeWhile isWordPart), ⟨?_, fun d hd => ?_⟩, ?_⟩
  · simp [meaning?_cons, hquote, hnumeric, hword]
  · have hstop := head?_dropWhile _ d hd
    simp [carriesOn_cons, hquote, hnumeric, hword, hstop]
  · simp [Piece.text]

/-- Whatever the lexer reads is a piece that is as it has to be. -/
theorem exists_proper (h : (readLexeme c rest).rest? = some after) :
    ∃ p : Piece, p.Proper after ∧ p.text ++ after = c :: rest := by
  unfold readLexeme at h
  split at h
  · next hskip =>
    cases h
    exact ⟨.blank c, (mem_blanks_iff c).2 (.inl hskip), rfl⟩
  split at h
  · next hnewline =>
    cases h
    exact ⟨.blank c, (mem_blanks_iff c).2 (.inr hnewline), rfl⟩
  split at h
  · next hquote =>
    subst hquote
    exact exists_proper_of_readQuoted h
  split at h
  · next hcomment =>
    obtain ⟨rfl, hhead⟩ := hcomment
    obtain ⟨text, rfl⟩ := List.head?_eq_some_iff.1 hhead
    cases h
    exact exists_proper_of_comment text
  · next hcomment =>
    split at h
    · next s hs =>
      cases h
      exact exists_proper_of_symbolAt? hs hcomment
    split at h
    · next hnumeric => exact exists_proper_of_readNumber hnumeric h
    · next hnumeric =>
      split at h
      · next hword => exact exists_proper_of_readWord (Bool.eq_false_iff.2 hnumeric) hword h
      · cases h

end Piece

end Kiln
