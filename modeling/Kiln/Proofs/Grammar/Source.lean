/-
Module: Kiln.Proofs.Grammar.Source
Purpose: Printed programs as source texts. Each token is written as a lexeme that means it, and a space after
  it keeps the next one from carrying it on, so the lexer gives back the tokens. What the parser makes
  of a source text therefore survives being printed and parsed again.
Main exports: Token.lexeme, Token.spaced, tokenize_spaced, Program.source, legibleAll_of_tokenize,
  wellFormed_and_reparse_of_parse
-/
import Kiln.Proofs.Grammar.Parsed
import Kiln.Proofs.Grammar.RoundTrip
import Kiln.Proofs.Lexing.Cutting

namespace Kiln

open Kiln.Text Kiln.Lexer Kiln.Lexing

/-! ### Tokens as lexemes -/

/-- How a character is written between quotes. -/
def escaped : Char → List Char
  | '\n' => ['\\', 'n']
  | '\t' => ['\\', 't']
  | '"' => ['\\', '"']
  | '\\' => ['\\', '\\']
  | c => [c]

namespace Token

/-- The lexeme that writes a token. -/
def lexeme (t : Token) : List Char :=
  if t.kind = .text then '"' :: t.value.toList.flatMap escaped ++ ['"'] else t.value.toList

/-- The text that writes tokens one after the other, with a space between any two of them. -/
def spaced (tokens : List Token) : String :=
  String.ofList ([' '].intercalate (tokens.map lexeme))

/-- The token stands on the first line, and its lexeme means it. -/
def Spelled (t : Token) : Prop := meaning? t.lexeme = some (t.kind, t.value) ∧ t.line = 0

instance (t : Token) : Decidable t.Spelled := inferInstanceAs (Decidable (_ ∧ _))

end Token

/-- A character is read back from the way in which it is written between quotes. -/
theorem decode?_escaped (c : Char) (rest : List Char) :
    decode? (escaped c ++ rest) = (decode? rest).map (c :: ·) := by
  unfold escaped
  split
  · exact decode?_escape rfl rest
  · exact decode?_escape rfl rest
  · exact decode?_escape rfl rest
  · exact decode?_escape rfl rest
  · next hquote hbackslash => exact decode?_plain hquote hbackslash rest

theorem decode?_flatMap_escaped (text : List Char) :
    decode? (text.flatMap escaped ++ ['"']) = some text := by
  induction text with
  | nil => rfl
  | cons c rest ih => rw [List.flatMap_cons, List.append_assoc, decode?_escaped, ih, Option.map_some]

theorem newline_notMem_escaped (c : Char) : '\n' ∉ escaped c := by
  unfold escaped
  split
  · decide
  · decide
  · decide
  · decide
  · next hnewline _ _ _ => simpa using Ne.symm hnewline

namespace Token

theorem spelled_text (value : String) : (printed .text value).Spelled := by
  have hdecode := decode?_flatMap_escaped value.toList
  simp [Spelled, lexeme, printed, meaning?, hdecode]

theorem spelled_name {name : String} (h : isName name = true) : (Token.name name).Spelled := by
  unfold isName at h
  split at h
  · cases h
  · next c rest htext =>
    simp only [Bool.and_eq_true, Bool.not_eq_true', List.contains_eq_mem, decide_eq_false_iff_not] at h
    obtain ⟨⟨⟨hnumeric, hletter⟩, hrest⟩, hreserved⟩ := h
    have hquote : c ≠ '"' := by
      rintro rfl
      exact absurd hletter (by decide)
    have hvalue : String.ofList (c :: rest) = name := by rw [← htext, String.ofList_toList]
    have hlexeme : (Token.name name).lexeme = c :: rest := htext
    refine ⟨?_, rfl⟩
    rw [hlexeme, meaning?, if_neg hquote, if_neg (by simp [hnumeric]), if_pos hletter, if_pos hrest,
      hvalue, (kindOfWord_eq_identifier_iff name).2 hreserved]
    rfl

theorem isNumeric_of_isDigit {c : Char} (h : c.isDigit = true) : isNumeric c = true := by
  have hrange : 0x30 ≤ c.toNat ∧ c.toNat ≤ 0x39 := by
    simp only [Char.isDigit, Bool.and_eq_true, decide_eq_true_eq, UInt32.le_iff_toNat_le] at h
    exact h
  exact (isNumeric_iff c).2 ⟨(0x30, 0x39), List.mem_cons_self, hrange⟩

theorem spelled_numerals {text : String} (nonempty : text ≠ "")
    (numeric : ∀ c ∈ text.toList, isNumeric c = true) : (printed .number text).Spelled := by
  have hne : text.toList ≠ [] := fun hnil => nonempty (String.toList_eq_nil_iff.1 hnil)
  obtain ⟨c, rest, htext⟩ := List.exists_cons_of_ne_nil hne
  rw [htext] at numeric
  have hnumeric : isNumeric c = true := numeric c List.mem_cons_self
  have hrest : rest.all isNumeric = true :=
    List.all_eq_true.2 fun d hd => numeric d (List.mem_cons_of_mem c hd)
  have hquote : c ≠ '"' := by
    rintro rfl
    exact absurd hnumeric (by decide)
  have hlexeme : (printed .number text).lexeme = c :: rest := htext
  refine ⟨?_, rfl⟩
  rw [hlexeme, meaning?, if_neg hquote, if_pos hnumeric, if_pos hrest, ← htext,
    String.ofList_toList]
  rfl

theorem spelled_number {value : Int64} (h : 0 ≤ value) :
    (printed .number (Decimal.write value)).Spelled :=
  spelled_numerals (Decimal.write_ne_empty h) fun c hc =>
    isNumeric_of_isDigit (Decimal.isDigit_of_mem_write h c hc)

end Token

theorem BinaryOp.spelled_token (op : BinaryOp) : op.token.Spelled := by
  cases op <;> decide +kernel

theorem LogicalOp.spelled_token (op : LogicalOp) : op.token.Spelled := by
  cases op <;> decide +kernel

theorem UnaryOp.spelled_token (op : UnaryOp) : op.token.Spelled := by
  cases op <;> decide +kernel

theorem UpdateOp.spelled_token (op : UpdateOp) : op.token.Spelled := by
  cases op <;> decide +kernel

/-! ### Printed trees are spelled -/

/-- All of these tokens are spelled. -/
def SpelledAll (tokens : List Token) : Prop := ∀ t ∈ tokens, t.Spelled

namespace SpelledAll

theorem nil : SpelledAll [] := nofun

theorem cons {t : Token} {rest : List Token} (ht : t.Spelled) (h : SpelledAll rest) :
    SpelledAll (t :: rest) :=
  List.forall_mem_cons.2 ⟨ht, h⟩

theorem append {first second : List Token} (h : SpelledAll first) (h' : SpelledAll second) :
    SpelledAll (first ++ second) :=
  List.forall_mem_append.2 ⟨h, h'⟩

theorem parenthesized {tokens : List Token} (h : SpelledAll tokens) (needed : Bool) :
    SpelledAll (Kiln.parenthesized needed tokens) := by
  cases needed with
  | true => exact .cons (by decide +kernel) (h.append (.cons (by decide +kernel) .nil))
  | false => exact h

theorem braced {tokens : List Token} (h : SpelledAll tokens) :
    SpelledAll (.openBrace :: tokens ++ [.closeBrace]) :=
  .cons (by decide +kernel) (h.append (.cons (by decide +kernel) .nil))

end SpelledAll

theorem typeTokens_spelled {type : Option String} (h : AllNames type.toList) :
    SpelledAll (typeTokens type) := by
  cases type with
  | none => exact .nil
  | some type => exact .cons (Token.spelled_name (allNames_cons.1 h).1) .nil

theorem Param.spelled {p : Param} (h : AllNames p.names) : SpelledAll p.tokens :=
  .cons (Token.spelled_name (allNames_cons.1 h).1) (typeTokens_spelled (allNames_cons.1 h).2)

theorem Param.spelledMore {ps : List Param} (h : AllNames (ps.flatMap Param.names)) :
    SpelledAll (Param.tokensOfMore ps) := by
  induction ps with
  | nil => exact .nil
  | cons p rest ih =>
      rw [List.flatMap_cons, allNames_append] at h
      exact .cons (by decide +kernel) (.append (Param.spelled h.1) (ih h.2))

theorem Param.spelledAll {ps : List Param} (h : AllNames (ps.flatMap Param.names)) :
    SpelledAll (Param.tokensOfAll ps) := by
  cases ps with
  | nil => exact .nil
  | cons p rest =>
      rw [List.flatMap_cons, allNames_append] at h
      exact .append (Param.spelled h.1) (Param.spelledMore h.2)

theorem headTokens_spelled {params : List Param} {returnType : Option String}
    (hparams : AllNames (params.flatMap Param.names)) (htype : AllNames returnType.toList) :
    SpelledAll (headTokens params returnType) :=
  .cons (by decide +kernel) (.append (Param.spelledAll hparams)
    (.cons (by decide +kernel) (typeTokens_spelled htype)))

mutual

theorem Expr.spelled : ∀ {e : Expr}, e.Sound → SpelledAll e.bare
  | .number _, h => .cons (Token.spelled_number (of_decide_eq_true h.1)) .nil
  | .text value, _ => .cons (Token.spelled_text value) .nil
  | .bool true, _ => .cons (by decide +kernel) .nil
  | .bool false, _ => .cons (by decide +kernel) .nil
  | .var _ _, h => .cons (Token.spelled_name (allNames_cons.1 h.2).1) .nil
  | .this _, _ => .cons (by decide +kernel) .nil
  | .binary op left right, h => by
      simp only [Expr.Sound, Expr.wellFormed, Expr.names, Bool.and_eq_true, allNames_append] at h
      exact ((Expr.spelled ⟨h.1.1, h.2.1⟩).parenthesized _).append
        (.cons op.spelled_token ((Expr.spelled ⟨h.1.2, h.2.2⟩).parenthesized _))
  | .logical op left right, h => by
      simp only [Expr.Sound, Expr.wellFormed, Expr.names, Bool.and_eq_true, allNames_append] at h
      exact ((Expr.spelled ⟨h.1.1, h.2.1⟩).parenthesized _).append
        (.cons op.spelled_token ((Expr.spelled ⟨h.1.2, h.2.2⟩).parenthesized _))
  | .unary op operand, h =>
      .cons op.spelled_token ((Expr.spelled (e := operand) h).parenthesized _)
  | .member object property, h => by
      simp only [Expr.Sound, Expr.wellFormed, Expr.names, allNames_append, allNames_cons] at h
      exact ((Expr.spelled ⟨h.1, h.2.1⟩).parenthesized _).append
        (.cons (by decide +kernel) (.cons (Token.spelled_name h.2.2.1) .nil))
  | .call callee args, h => by
      simp only [Expr.Sound, Expr.wellFormed, Expr.names, Bool.and_eq_true, allNames_append] at h
      rw [Expr.bare, List.append_assoc]
      exact ((Expr.spelled ⟨h.1.1, h.2.1⟩).parenthesized _).append (.cons (by decide +kernel)
        ((Expr.spelledArgs ⟨h.1.2, h.2.2⟩).append (.cons (by decide +kernel) .nil)))
  | .lambda ⟨_, _, _, _⟩, h => by
      simp only [Expr.Sound, Expr.wellFormed, Function.wellFormed, Expr.names, Function.names,
        Bool.and_eq_true, allNames_append] at h
      exact (headTokens_spelled h.2.1.1.2 h.2.1.2).append
        (.cons (by decide +kernel) (Stmt.spelledAll ⟨h.1.2, h.2.2⟩).braced)

theorem Expr.spelledArgs : ∀ {es : List Expr}, Expr.SoundAll es → SpelledAll (Expr.printArgs es)
  | [], _ => .nil
  | e :: rest, h => by
      simp only [Expr.SoundAll, Expr.wellFormedAll, Expr.namesOfAll, Bool.and_eq_true,
        allNames_append] at h
      exact (Expr.spelled ⟨h.1.1, h.2.1⟩).append (Expr.spelledMoreArgs ⟨h.1.2, h.2.2⟩)

theorem Expr.spelledMoreArgs : ∀ {es : List Expr}, Expr.SoundAll es →
    SpelledAll (Expr.printMoreArgs es)
  | [], _ => .nil
  | e :: rest, h => by
      simp only [Expr.SoundAll, Expr.wellFormedAll, Expr.namesOfAll, Bool.and_eq_true,
        allNames_append] at h
      exact .cons (by decide +kernel)
        ((Expr.spelled ⟨h.1.1, h.2.1⟩).append (Expr.spelledMoreArgs ⟨h.1.2, h.2.2⟩))

theorem Stmt.spelled : ∀ {s : Stmt}, s.Sound → SpelledAll s.print
  | .expr e, h => Expr.spelled (e := e) h
  | .declare _ value, h => .cons (Token.spelled_name (allNames_cons.1 h.2).1)
      (.cons (by decide +kernel) (Expr.spelled ⟨h.1, (allNames_cons.1 h.2).2⟩))
  | .assign _ value, h => .cons (Token.spelled_name (allNames_cons.1 h.2).1)
      (.cons (by decide +kernel) (Expr.spelled ⟨h.1, (allNames_cons.1 h.2).2⟩))
  | .update _ op, h => .cons (Token.spelled_name (allNames_cons.1 h.2).1)
      (.cons op.spelled_token .nil)
  | .setMember object _ value, h => by
      simp only [Stmt.Sound, Stmt.wellFormed, Stmt.names, Bool.and_eq_true, allNames_append,
        allNames_cons] at h
      exact ((Expr.spelled ⟨h.1.1, h.2.1⟩).parenthesized _).append (.cons (by decide +kernel)
        (.cons (Token.spelled_name h.2.2.1) (.cons (by decide +kernel)
          (Expr.spelled ⟨h.1.2, h.2.2.2⟩))))
  | .block body, h => (Stmt.spelledAll h).braced
  | .ifElse test thenBranch none, h => by
      simp only [Stmt.Sound, Stmt.wellFormed, Stmt.names, Bool.and_eq_true, allNames_append] at h
      exact .cons (by decide +kernel)
        ((Expr.spelled ⟨h.1.1.1, h.2.1⟩).append (Stmt.spelled ⟨h.1.2, h.2.2⟩))
  | .ifElse test thenBranch (some elseBranch), h => by
      simp only [Stmt.Sound, Stmt.wellFormed, Stmt.names, Bool.and_eq_true, allNames_append] at h
      exact .append (.cons (by decide +kernel)
          ((Expr.spelled ⟨h.1.1.1.1.1, h.2.1.1⟩).append (Stmt.spelled ⟨h.1.1.1.2, h.2.1.2⟩)))
        (.cons (by decide +kernel) (Stmt.spelled ⟨h.1.2, h.2.2⟩))
  | .whileLoop test body, h => by
      simp only [Stmt.Sound, Stmt.wellFormed, Stmt.names, Bool.and_eq_true, allNames_append] at h
      exact .cons (by decide +kernel)
        ((Expr.spelled ⟨h.1.1.1, h.2.1⟩).append (Stmt.spelled ⟨h.1.2, h.2.2⟩))
  | .function f, h => by
      simp only [Stmt.Sound, Stmt.wellFormed, Stmt.names, Bool.and_eq_true] at h
      exact .cons (by decide +kernel) (Function.spelledNamed h.1.1 h.1.2 h.2)
  | .ret none, _ => .cons (by decide +kernel) .nil
  | .ret (some value), h => .cons (by decide +kernel) (Expr.spelled (e := value) h)
  | .classDecl _ methods, h => .cons (by decide +kernel)
      (.cons (Token.spelled_name (allNames_cons.1 h.2).1)
        (Function.spelledAll ⟨h.1, (allNames_cons.1 h.2).2⟩).braced)

theorem Stmt.spelledAll : ∀ {ss : List Stmt}, Stmt.SoundAll ss → SpelledAll (Stmt.printAll ss)
  | [], _ => .nil
  | s :: rest, h => by
      simp only [Stmt.SoundAll, Stmt.wellFormedAll, Stmt.namesOfAll, Bool.and_eq_true,
        allNames_append] at h
      exact (Stmt.spelled ⟨h.1.1.1, h.2.1⟩).append (Stmt.spelledAll ⟨h.1.2, h.2.2⟩)

theorem Function.spelledNamed : ∀ {f : Function}, f.name.isSome = true → f.wellFormed = true →
    AllNames f.names → SpelledAll f.printNamed
  | ⟨some _, _, _, _⟩, _, hbody, h => by
      simp only [Function.names, allNames_append] at h
      rw [Function.printNamed, List.append_assoc]
      exact .cons (Token.spelled_name (allNames_cons.1 h.1.1.1).1)
        ((headTokens_spelled h.1.1.2 h.1.2).append (Stmt.spelledAll ⟨hbody, h.2⟩).braced)

theorem Function.spelledAll : ∀ {fs : List Function}, Function.SoundAll fs →
    SpelledAll (Function.printAll fs)
  | [], _ => .nil
  | f :: rest, h => by
      simp only [Function.SoundAll, Function.wellFormedAll, Function.namesOfAll, Bool.and_eq_true,
        allNames_append] at h
      exact (Function.spelledNamed h.1.1.1 h.1.1.2 h.2.1).append (Function.spelledAll ⟨h.1.2, h.2.2⟩)

end

/-! ### From tokens to a text and back -/

/-- The pieces of a text in which tokens are separated by spaces. -/
def Token.pieces : List Token → List Piece
  | [] => []
  | [t] => [.lexeme t.lexeme]
  | t :: rest => .lexeme t.lexeme :: .blank ' ' :: Token.pieces rest

theorem Token.textOf_pieces (tokens : List Token) :
    Piece.textOf (Token.pieces tokens) = [' '].intercalate (tokens.map Token.lexeme) := by
  fun_induction Token.pieces tokens with
  | case1 => rfl
  | case2 t => simp [Piece.text, List.intercalate]
  | case3 t rest hrest ih =>
      obtain ⟨u, more, rfl⟩ : ∃ u more, rest = u :: more :=
        List.exists_cons_of_ne_nil fun hnil => hrest (by rw [hnil])
      simp [Piece.text, ih, List.intercalate]

theorem Token.newline_notMem_lexeme {t : Token} (h : t.Spelled) : '\n' ∉ t.lexeme := by
  by_cases hkind : t.kind = .text
  · rw [Token.lexeme, if_pos hkind]
    simp [newline_notMem_escaped]
  · have hmeaning := h.1
    cases htext : t.lexeme with
    | nil => simp
    | cons c run =>
        rw [htext] at hmeaning
        refine newline_notMem_of_meaning? ?_ (by rw [hmeaning]; rfl)
        rintro rfl
        rw [meaning?, if_pos rfl, Option.map_eq_some_iff] at hmeaning
        obtain ⟨value, -, heq⟩ := hmeaning
        exact hkind (congrArg Prod.fst heq).symm

namespace SpelledAll

theorem cut_pieces {tokens : List Token} (h : SpelledAll tokens) : Piece.Cut (Token.pieces tokens) := by
  fun_induction Token.pieces tokens with
  | case1 => trivial
  | case2 t => exact ⟨⟨by rw [(h t List.mem_cons_self).1]; rfl, nofun⟩, trivial⟩
  | case3 t rest hrest ih =>
      refine ⟨⟨by rw [(h t List.mem_cons_self).1]; rfl, ?_⟩, List.mem_cons_self,
        ih fun u hu => h u (List.mem_cons_of_mem t hu)⟩
      rintro c ⟨⟩
      exact carriesOn_blank (.inl rfl) _

theorem count_textOf {tokens : List Token} (h : SpelledAll tokens) :
    (Piece.textOf (Token.pieces tokens)).count '\n' = 0 := by
  rw [List.count_eq_zero]
  fun_induction Token.pieces tokens with
  | case1 => simp
  | case2 t => simpa [Piece.text] using Token.newline_notMem_lexeme (h t List.mem_cons_self)
  | case3 t rest hrest ih =>
      have hlexeme := Token.newline_notMem_lexeme (h t List.mem_cons_self)
      simp [Piece.text, hlexeme, ih fun u hu => h u (List.mem_cons_of_mem t hu)]

theorem token?_lexeme {t : Token} (h : t.Spelled) : (Piece.lexeme t.lexeme).token? 0 = some t := by
  obtain ⟨hmeaning, hline⟩ := h
  obtain ⟨kind, value, line⟩ := t
  cases hline
  simp [Piece.token?, hmeaning]

theorem tokensOf_pieces {tokens : List Token} (h : SpelledAll tokens) {before : List Char}
    (hbefore : before.count '\n' = 0) : Piece.tokensOf before (Token.pieces tokens) = tokens := by
  fun_induction Token.pieces tokens generalizing before with
  | case1 => rfl
  | case2 t =>
      have hfirst := token?_lexeme (h t List.mem_cons_self)
      simp [Piece.tokensOf, hbefore, hfirst]
  | case3 t rest hrest ih =>
      have hfirst := token?_lexeme (h t List.mem_cons_self)
      have hline : (before ++ t.lexeme ++ [' ']).count '\n' = 0 := by
        have hlexeme := Token.newline_notMem_lexeme (h t List.mem_cons_self)
        simp [hbefore, List.count_eq_zero.2 hlexeme]
      have hmore := ih (fun u hu => h u (List.mem_cons_of_mem t hu)) hline
      simp only [Piece.tokensOf, Piece.text, hbefore, hfirst, hmore]
      rfl

end SpelledAll

/-- The lexer gives back tokens that are written with spaces between them. -/
theorem tokenize_spaced {tokens : List Token} (h : SpelledAll tokens) :
    tokenize (Token.spaced tokens) = .ok (tokens ++ [Token.eof 1]) := by
  have htext : Piece.textOf (Token.pieces tokens) = (Token.spaced tokens).toList := by
    rw [Token.spaced, String.toList_ofList, Token.textOf_pieces]
  rw [tokenize_of_cut htext h.cut_pieces, ← htext, h.count_textOf, h.tokensOf_pieces rfl]

/-! ### Programs as texts -/

/-- A program as a source text, with as few parentheses as can be and a space between any two tokens. -/
def Program.source (p : Program) : String := Token.spaced (Stmt.printAll p.statements)

/-- The meaning of a lexeme is a token as the lexer makes it. -/
theorem legible_of_meaning? {text : List Char} {kind : TokenKind} {value : String} {line : Nat}
    (h : meaning? text = some (kind, value)) : Token.Legible ⟨kind, value, line⟩ := by
  cases text with
  | nil => cases h
  | cons c rest =>
      simp only [meaning?] at h
      split_ifs at h with hquote hnumeric hrest hletter hrest
      · obtain ⟨decoded, -, heq⟩ := Option.map_eq_some_iff.1 h
        cases heq
        exact .of_other (by simp) (by simp)
      · cases h
        exact ⟨fun hkind => absurd hkind (by simp), fun _ => ⟨c, rest, rfl, hnumeric⟩⟩
      · cases h
        refine ⟨fun hkind => ?_, fun hkind => absurd hkind (kindOfWord_ne_number _)⟩
        have hreserved := (kindOfWord_eq_identifier_iff _).1 hkind
        simp_all [isName]
      · obtain ⟨kind, hkind, heq⟩ := Option.map_eq_some_iff.1 h
        cases heq
        obtain ⟨hname, hnumber⟩ := kind_of_mem_signs _ (mem_of_lookup hkind)
        exact .of_other hname hnumber

theorem legibleAll_tokensOf (before : List Char) (pieces : List Piece) :
    LegibleAll (Piece.tokensOf before pieces) := by
  induction pieces generalizing before with
  | nil => exact nofun
  | cons p rest ih =>
      refine List.forall_mem_append.2 ⟨fun t ht => ?_, ih _⟩
      cases p with
      | lexeme text =>
          obtain ⟨⟨kind, value⟩, hmeaning, rfl⟩ :=
            Option.map_eq_some_iff.1 (Option.mem_toList.1 ht)
          exact legible_of_meaning? hmeaning
      | _ => cases ht

/-- The lexer makes the tokens of a text from its lexemes. -/
theorem legibleAll_of_tokenize {source : String} {tokens : List Token}
    (h : tokenize source = .ok tokens) : LegibleAll tokens := by
  obtain ⟨pieces, htext, hcut⟩ := exists_cut_of_tokenize h
  rw [tokenize_of_cut htext hcut, Except.ok.injEq] at h
  subst h
  refine List.forall_mem_append.2 ⟨legibleAll_tokensOf [] pieces, ?_⟩
  rintro t (_ | ⟨_, ⟨⟩⟩)
  exact .of_other nofun nofun

/-- What is parsed from a source text is well formed, and its names are names; printed with as few
    parentheses as can be, it is parsed again to itself, up to ids and lines. -/
theorem wellFormed_and_reparse_of_parse {source : String} {tokens : List Token} {drawn : Nat}
    {p : Program} (hlex : tokenize source = .ok tokens)
    (hparse : (parse tokens drawn).result = .ok p) :
    Stmt.wellFormedAll p.statements = true ∧
      (∀ name ∈ Stmt.namesOfAll p.statements, isName name = true) ∧
      ∃ tokens', tokenize p.source = .ok tokens' ∧
        ∀ drawn', ∃ p', (parse tokens' drawn').result = .ok p' ∧ p'.skeleton = p.skeleton := by
  have hsound : Stmt.SoundAll p.statements := parse_sound (legibleAll_of_tokenize hlex) hparse
  refine ⟨hsound.1, hsound.2, _, tokenize_spaced (Stmt.spelledAll hsound), fun drawn' => ?_⟩
  obtain ⟨p', c, hp', hskeleton⟩ := program_depthFor hsound.1 1 drawn'
  refine ⟨p', ?_, hskeleton⟩
  rw [parse, hp']

/-- A text on two lines with more parentheses than it needs, and a comment. -/
theorem wellFormed_and_reparse_of_parse_of_redundant :
    ∃ tokens p, tokenize "x := a - ((b) - y) // z\nif (x) \x7b return \x7d" = .ok tokens ∧
      (parse tokens 0).result = .ok p ∧
      Stmt.wellFormedAll p.statements = true ∧
      (∀ name ∈ Stmt.namesOfAll p.statements, isName name = true) ∧
      ∃ tokens', tokenize p.source = .ok tokens' ∧
        ∀ drawn', ∃ p', (parse tokens' drawn').result = .ok p' ∧ p'.skeleton = p.skeleton := by
  have hlex : tokenize "x := a - ((b) - y) // z\nif (x) \x7b return \x7d" = .ok
      [⟨.identifier, "x", 0⟩, ⟨.declare, ":=", 0⟩, ⟨.identifier, "a", 0⟩, ⟨.binaryOperator, "-", 0⟩,
        ⟨.openParen, "(", 0⟩, ⟨.openParen, "(", 0⟩, ⟨.identifier, "b", 0⟩, ⟨.closeParen, ")", 0⟩,
        ⟨.binaryOperator, "-", 0⟩, ⟨.identifier, "y", 0⟩, ⟨.closeParen, ")", 0⟩, ⟨.ifWord, "if", 1⟩,
        ⟨.openParen, "(", 1⟩, ⟨.identifier, "x", 1⟩, ⟨.closeParen, ")", 1⟩, ⟨.openBrace, "\x7b", 1⟩,
        ⟨.returnWord, "return", 1⟩, ⟨.closeBrace, "\x7d", 1⟩, .eof 2] := by
    decide +kernel
  refine ⟨_, [⟨0, .declare "x" (.binary .sub (.var "a" ⟨1⟩) (.binary .sub (.var "b" ⟨2⟩) (.var "y" ⟨3⟩)))⟩,
    ⟨1, .ifElse (.var "x" ⟨4⟩) (.block [.ret none]) none⟩], hlex, rfl, ?_⟩
  exact wellFormed_and_reparse_of_parse hlex (rfl : (parse _ 0).result = _)

end Kiln
