/-
Module: Kiln.Proofs.Session.Numerals
Purpose: Numbers on their way through a session. A text of digits is one token, this token is a program of one
  statement, and running it gives the number that the digits write. A minus sign before them is a token of its
  own, which negates that number. So the text under which a number is shown gives the number again; digits that
  write too large a number are rejected with the text that they are.
Main exports: tokenize_digits, tokenize_negated, Grammar.program_ended, parse_number, parse_negated,
  Session.submit_digits, Session.submit_display, Session.numbers_pass_unchanged
-/
import Kiln.Proofs.Grammar.Progress
import Kiln.Proofs.Grammar.Source
import Kiln.Proofs.Number.Numerals
import Kiln.Proofs.Session.History
import Kiln.Proofs.Session.Lines

namespace Kiln

open Kiln.Text Kiln.Lexer Kiln.Lexing Kiln.Parser

/-! ### Digits as tokens -/

section Digits

variable {text : String}

theorem meaning?_of_isDigit (hne : text ≠ "") (h : ∀ c ∈ text.toList, c.isDigit = true) :
    meaning? text.toList = some (.number, text) := by
  have hspelled := Token.spelled_numerals hne fun c hc => Token.isNumeric_of_isDigit (h c hc)
  exact hspelled.1

theorem count_newline_of_isDigit (h : ∀ c ∈ text.toList, c.isDigit = true) :
    text.toList.count '\n' = 0 := by
  refine List.count_eq_zero.2 fun hmem => ?_
  exact absurd (h _ hmem) (by decide)

/-- Digits are one number. -/
theorem tokenize_digits (hne : text ≠ "") (h : ∀ c ∈ text.toList, c.isDigit = true) :
    tokenize text = .ok [⟨.number, text, 0⟩, .eof 1] := by
  have hmeans := meaning?_of_isDigit hne h
  have hpieces : Piece.textOf [.lexeme text.toList] = text.toList := List.append_nil _
  have hcut : Piece.Cut [.lexeme text.toList] := ⟨⟨by rw [hmeans]; rfl, nofun⟩, trivial⟩
  rw [tokenize_of_cut hpieces hcut, count_newline_of_isDigit h]
  simp [Piece.tokensOf, Piece.token?, hmeans]

/-- No digit carries a minus sign on. -/
theorem carriesOn_minus {c : Char} (h : c.isDigit = true) : carriesOn c ['-'] = false := by
  have hlonger : ∀ sign ∈ signs, sign.1.toList.head? = some '-' →
      sign.1.toList = ['-', '-'] ∨ sign.1.toList = ['-'] := by
    decide +kernel
  have hlookup : signs.lookup (String.ofList ['-', c]) = none := by
    refine Option.eq_none_iff_forall_not_mem.2 fun kind hkind => ?_
    have htext := hlonger _ (mem_of_lookup hkind)
    simp only [String.toList_ofList, List.head?_cons, List.cons.injEq, true_and, and_true, forall_const,
      List.cons_ne_nil, or_false] at htext
    rw [htext] at h
    cases h
  rw [carriesOn, if_neg (by decide), if_neg (by decide), if_neg (by decide), List.singleton_append,
    hlookup]
  rfl

/-- A minus sign before digits is a sign of its own. -/
theorem tokenize_negated (hne : text ≠ "") (h : ∀ c ∈ text.toList, c.isDigit = true) :
    tokenize ("-" ++ text) = .ok [⟨.binaryOperator, "-", 0⟩, ⟨.number, text, 0⟩, .eof 1] := by
  have hmeans := meaning?_of_isDigit hne h
  have hsign : meaning? ['-'] = some (.binaryOperator, "-") := by decide
  have hpieces : Piece.textOf [.lexeme ['-'], .lexeme text.toList] = ("-" ++ text).toList := by
    simp [Piece.text]
  have hcut : Piece.Cut [.lexeme ['-'], .lexeme text.toList] := by
    refine ⟨⟨by rw [hsign]; rfl, fun c hc => ?_⟩, ⟨by rw [hmeans]; rfl, fun c hc => ?_⟩, trivial⟩
    · have hmem : c ∈ text.toList := by simpa [Piece.text] using List.mem_of_head? hc
      exact carriesOn_minus (h c hmem)
    · cases hc
  have hlines : ("-" ++ text).toList.count '\n' = 0 := by
    rw [String.toList_append, List.count_append, count_newline_of_isDigit h]
    rfl
  rw [tokenize_of_cut hpieces hcut, hlines]
  simp [Piece.tokensOf, Piece.token?, hmeans, hsign, Piece.text]

end Digits

/-! ### Expressions up to the end of the source -/

namespace Grammar

/-- The rule fails or leaves the end of the source. -/
def Ended (r : EStateM.Result ParseError Cursor Expr) : Prop :=
  ∀ e c, r = .ok e c → (front c.tokens).kind = .endOfFile

variable {n : Nat} {c : Cursor}

theorem chain_ended (level : Level) (tighter : List Level) (e : Expr)
    (h : (front c.tokens).kind = .endOfFile) : chain (n + 1) level tighter e c = .ok e c := by
  simp only [chain, Bind.bind, EStateM.bind, peek, Level.connective?_endOfFile h]
  rfl

theorem selections_ended (e : Expr) (h : (front c.tokens).kind = .endOfFile) :
    selections (n + 1) e c = .ok e c := by
  simp only [selections, Bind.bind, EStateM.bind, peek, h]
  rfl

/-- No level adds an operator where the source ends. -/
theorem operands_ended (h : Ended (unary n c)) (levels : List Level) :
    operands (n + levels.length + 1) levels c = unary n c := by
  induction levels with
  | nil => rfl
  | cons level tighter ih =>
      have hlength : n + (level :: tighter).length + 1 = n + tighter.length + 1 + 1 := rfl
      rw [hlength, operands]
      simp only [Bind.bind, EStateM.bind, ih]
      cases hunary : unary n c with
      | ok e c' => exact chain_ended level tighter e (h e c' hunary)
      | error e c' => rfl

/-- There is nothing but the expression to make a statement of. -/
theorem simple_ended (h : Ended (unary n c)) :
    simple (n + 9) c = (do return Stmt.expr (← unary n)) c := by
  have hexpression : expression (n + 8) c = unary n c := operands_ended h Level.all
  simp only [simple, Bind.bind, EStateM.bind, hexpression]
  cases hunary : unary n c with
  | ok e c' => simp only [peek, h e c' hunary]
  | error e c' => rfl

/-- A program that is one expression, if it begins with a number or a sign. -/
theorem program_ended {t : Token} {rest : List Token} {drawn : Nat}
    (hkind : t.kind = .number ∨ t.kind = .binaryOperator) (h : Ended (unary n ⟨t :: rest, drawn⟩)) :
    program (n + 11) ⟨t :: rest, drawn⟩ = match unary n ⟨t :: rest, drawn⟩ with
      | .ok e c' => .ok [⟨t.line, .expr e⟩] c'
      | .error e c' => .error ⟨t.line, e⟩ c' := by
  have hstart : (front (t :: rest)).kind ≠ .endOfFile := by
    rcases hkind with hkind | hkind
    · simp [front, hkind]
    · simp [front, hkind]
  have hstatement : statement (n + 10) ⟨t :: rest, drawn⟩ = simple (n + 9) ⟨t :: rest, drawn⟩ := by
    rw [statement]
    rcases hkind with hkind | hkind
    · simp only [Bind.bind, EStateM.bind, peek, front, List.headD_cons, hkind]
    · simp only [Bind.bind, EStateM.bind, peek, front, List.headD_cons, hkind]
  rw [program_statement _ _ hstart, hstatement, simple_ended h]
  simp only [Bind.bind, EStateM.bind]
  cases hunary : unary n ⟨t :: rest, drawn⟩ with
  | ok e c' =>
      have hend := program_endOfFile (n + 9) c'.drawn (h e c' hunary)
      simp only [pure, EStateM.pure, hend]
      rfl
  | error e c' => rfl

/-- A number before the end of the source. -/
theorem unary_number {text : String} {line drawn : Nat} {rest : List Token}
    (h : (front rest).kind = .endOfFile) :
    unary (n + 2) ⟨⟨.number, text, line⟩ :: rest, drawn⟩ = match Decimal.read? text with
      | some value => .ok (.number value) ⟨rest, drawn⟩
      | none => .error (.invalidNumber text) ⟨rest, drawn⟩ := by
  have hprimary : primary (n + 1) ⟨⟨.number, text, line⟩ :: rest, drawn⟩ =
      match Decimal.read? text with
      | some value => .ok (.number value) ⟨rest, drawn⟩
      | none => .error (.invalidNumber text) ⟨rest, drawn⟩ := by
    rw [primary]
    simp only [Bind.bind, EStateM.bind, peek, front, List.headD_cons, skip, take]
    cases Decimal.read? text <;> rfl
  rw [unary]
  simp only [Bind.bind, EStateM.bind, peek, front, List.headD_cons, UnaryOp.ofToken?]
  rw [hprimary]
  cases Decimal.read? text with
  | some value => exact selections_ended (.number value) h
  | none => rfl

/-- A minus sign before an operand. -/
theorem unary_minus {line drawn : Nat} {rest : List Token} :
    unary (n + 1) ⟨⟨.binaryOperator, "-", line⟩ :: rest, drawn⟩ =
      (do return Expr.unary .negate (← unary n)) ⟨rest, drawn⟩ := by
  rw [unary]
  simp only [Bind.bind, EStateM.bind, peek, front, List.headD_cons, UnaryOp.ofToken?, if_true]
  rfl

end Grammar

open Grammar in
/-- A number alone is parsed as what it writes, and rejected if it writes nothing. -/
theorem parse_number (text : String) (line drawn : Nat) :
    (parse [⟨.number, text, 0⟩, .eof line] drawn).result = match Decimal.read? text with
      | some value => .ok [⟨0, .expr (.number value)⟩]
      | none => .error ⟨0, .invalidNumber text⟩ := by
  have hdepth : depthFor [⟨.number, text, 0⟩, .eof line] = 37 + 11 := rfl
  have hunary : unary 37 ⟨[⟨.number, text, 0⟩, .eof line], drawn⟩ = _ := unary_number rfl
  have hended : Ended (unary 37 ⟨[⟨.number, text, 0⟩, .eof line], drawn⟩) := by
    rw [hunary]
    cases Decimal.read? text with
    | some value =>
        rintro e c ⟨⟩
        rfl
    | none => exact nofun
  rw [parse, hdepth, program_ended (.inl rfl) hended, hunary]
  cases Decimal.read? text <;> rfl

open Grammar in
/-- A number behind a minus sign is parsed as its negation. -/
theorem parse_negated {text : String} {value : Int64} (h : Decimal.read? text = some value)
    (line drawn : Nat) :
    (parse [⟨.binaryOperator, "-", 0⟩, ⟨.number, text, 0⟩, .eof line] drawn).result =
      .ok [⟨0, .expr (.unary .negate (.number value))⟩] := by
  have hdepth : depthFor [⟨.binaryOperator, "-", 0⟩, ⟨.number, text, 0⟩, .eof line] = 53 + 11 := rfl
  have hunary : unary 52 ⟨[⟨.number, text, 0⟩, .eof line], drawn⟩ = _ := unary_number rfl
  rw [h] at hunary
  have hminus : unary 53 ⟨[⟨.binaryOperator, "-", 0⟩, ⟨.number, text, 0⟩, .eof line], drawn⟩ =
      .ok (.unary .negate (.number value)) ⟨[.eof line], drawn⟩ := by
    rw [unary_minus]
    simp only [Bind.bind, EStateM.bind, hunary]
    rfl
  have hended :
      Ended (unary 53 ⟨[⟨.binaryOperator, "-", 0⟩, ⟨.number, text, 0⟩, .eof line], drawn⟩) := by
    rw [hminus]
    rintro e c ⟨⟩
    rfl
  rw [parse, hdepth, program_ended (.inr rfl) hended, hminus]

/-! ### Whole lines -/

namespace Session

/-- A text that is read as one expression without references gives the value of the expression. -/
theorem submit_of_expr (s : Session) {fuel : Nat} {source : String} {tokens : List Token} {e : Expr}
    {v : Value} (lexed : tokenize source = .ok tokens)
    (parsed : (parse tokens s.drawn).result = .ok [⟨0, .expr e⟩])
    (resolved : resolve [⟨0, .expr e⟩] = .ok .empty)
    (evaluates : ∀ find scope w, Evaluate.stmt find fuel (.expr e) scope w = .ok (.normal v) w) :
    (s.submit fuel source).1 = .ok [v] := by
  have hrun : ∀ find scope w,
      Evaluate.program find fuel scope [⟨0, .expr e⟩] w = .ok [v] w := by
    intro find scope w
    simp only [Evaluate.program, Bind.bind, EStateM.bind, EStateM.adaptExcept, evaluates]
    rfl
  rw [submit_of_accepts ⟨⟨tokens, lexed, parsed⟩, resolved⟩, Interpreter.run_of_program_ok (hrun _ _ _)]
  rfl

/-- A line of digits gives the number that they write, or is rejected if that is too large. -/
theorem submit_digits (s : Session) {fuel : Nat} (enough : 3 ≤ fuel) {text : String} (hne : text ≠ "")
    (h : ∀ c ∈ text.toList, c.isDigit = true) :
    (s.submit fuel text).1 = if Nat.ofDigitChars 10 text.toList 0 < 2 ^ 63 then
      .ok [.number (Int64.ofInt (Nat.ofDigitChars 10 text.toList 0 : Nat))]
    else .error (.parsing ⟨0, .invalidNumber text⟩) := by
  have lexed := tokenize_digits hne h
  have parsed := parse_number text 1 s.drawn
  rw [Decimal.read?_of_isDigit hne h] at parsed
  obtain ⟨n, rfl⟩ : ∃ n, fuel = n + 3 := ⟨fuel - 3, by omega⟩
  split
  · next hsmall =>
    rw [if_pos hsmall] at parsed
    exact s.submit_of_expr lexed parsed rfl fun _ _ _ => rfl
  · next hlarge =>
    rw [if_neg hlarge] at parsed
    rw [submit_of_rejects (.parsing lexed parsed)]

/-- A number is given again by the text under which it is shown, the least number excepted. -/
theorem submit_display (s : Session) {fuel : Nat} (enough : 3 ≤ fuel) {n : Int64}
    (h : n ≠ Int64.minValue) : (s.submit fuel (Value.number n).display).1 = .ok [.number n] := by
  obtain ⟨k, rfl⟩ : ∃ k, fuel = k + 3 := ⟨fuel - 3, by omega⟩
  by_cases hsign : 0 ≤ n
  · have lexed := tokenize_digits (Decimal.write_ne_empty hsign) (Decimal.isDigit_of_mem_write hsign)
    have parsed := parse_number (Decimal.write n) 1 s.drawn
    rw [Decimal.read?_write hsign] at parsed
    exact s.submit_of_expr lexed parsed rfl fun _ _ _ => rfl
  · have hneg := Decimal.nonneg_neg hsign h
    have lexed := tokenize_negated (Decimal.write_ne_empty hneg) (Decimal.isDigit_of_mem_write hneg)
    have parsed := parse_negated (Decimal.read?_write hneg) 1 s.drawn
    have hvalue : (s.submit (k + 3) ("-" ++ Decimal.write (-n))).1 = .ok [.number (- -n)] :=
      s.submit_of_expr lexed parsed rfl fun _ _ _ => rfl
    rw [Int64.neg_neg, ← Decimal.write_eq_minus hsign h] at hvalue
    exact hvalue

/-- Numbers go through a session unchanged. The text under which a number is shown is read, checked and run to
    that one number, unless it is the least one; so is the text of a number that is not negative behind any
    zeros. Digits that write too large a number are one token, and are rejected with the text that they are. -/
theorem numbers_pass_unchanged (s : Session) {fuel : Nat} (enough : 3 ≤ fuel) :
    (∀ n : Int64, n ≠ Int64.minValue →
      (s.submit fuel (Value.number n).display).1 = .ok [.number n]) ∧
    (∀ (n : Int64) (zeros : Nat), 0 ≤ n →
      (s.submit fuel (String.ofList (List.replicate zeros '0') ++ (Value.number n).display)).1 =
        .ok [.number n]) ∧
    ∀ text : String, (∀ c ∈ text.toList, c.isDigit = true) →
      2 ^ 63 ≤ Nat.ofDigitChars 10 text.toList 0 →
      tokenize text = .ok [⟨.number, text, 0⟩, .eof 1] ∧
      (∀ drawn, (parse [⟨.number, text, 0⟩, .eof 1] drawn).result = .error ⟨0, .invalidNumber text⟩) ∧
      (s.submit fuel text).1 = .error (.parsing ⟨0, .invalidNumber text⟩) := by
  refine ⟨fun n => s.submit_display enough, fun n zeros hn => ?_, fun text h hlarge => ?_⟩
  · have hdigits : ∀ c ∈ (String.ofList (List.replicate zeros '0') ++ Decimal.write n).toList,
        c.isDigit = true := by
      intro c hc
      rw [String.toList_append, String.toList_ofList, List.mem_append] at hc
      rcases hc with hzero | hdigit
      · rw [List.eq_of_mem_replicate hzero]
        rfl
      · exact Decimal.isDigit_of_mem_write hn c hdigit
    have hne : String.ofList (List.replicate zeros '0') ++ Decimal.write n ≠ "" := by
      intro hempty
      exact Decimal.write_ne_empty hn (String.append_eq_empty_iff.1 hempty).2
    have hvalue := s.submit_digits enough hne hdigits
    rw [String.toList_append, String.toList_ofList, Decimal.ofDigitChars_zeros_write hn,
      if_pos (Decimal.toNat_lt n), Int.toNat_of_nonneg (Int64.le_iff_toInt_le.1 hn),
      Int64.ofInt_toInt] at hvalue
    exact hvalue
  · have hne : text ≠ "" := by
      rintro rfl
      exact absurd hlarge (by decide)
    refine ⟨tokenize_digits hne h, fun drawn => ?_, ?_⟩
    · rw [parse_number, Decimal.read?_of_isDigit hne h, if_neg (Nat.not_lt.2 hlarge)]
    · rw [s.submit_digits enough hne h, if_neg (Nat.not_lt.2 hlarge)]

/-- The greatest number behind two zeros, the number next to the least one, and the digits of that. -/
theorem numbers_pass_unchanged_of_limits :
    let greatest := "009223372036854775807"
    let tooLarge := "9223372036854775808"
    ((new default).submit 3 greatest).1 = .ok [.number Int64.maxValue] ∧
    ((new default).submit 3 (Value.number (-Int64.maxValue)).display).1 =
      .ok [.number (-Int64.maxValue)] ∧
    ((new default).submit 3 tooLarge).1 = .error (.parsing ⟨0, .invalidNumber tooLarge⟩) := by
  intro greatest tooLarge
  obtain ⟨hshown, hzeros, hlarge⟩ := numbers_pass_unchanged (new default) (Nat.le_refl 3)
  have htext : String.ofList (List.replicate 2 '0') ++ (Value.number Int64.maxValue).display = greatest := by
    decide +kernel
  refine ⟨?_, hshown _ (by decide), ?_⟩
  · rw [← htext]
    exact hzeros Int64.maxValue 2 (by decide)
  · have hdigits : tooLarge.toList.all Char.isDigit = true := by decide +kernel
    exact (hlarge tooLarge (List.all_eq_true.1 hdigits) (by decide +kernel)).2.2

end Session

end Kiln
