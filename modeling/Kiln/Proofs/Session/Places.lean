/-
Module: Kiln.Proofs.Session.Places
Purpose: The lines on which problems are reported. A text that cannot be cut into tokens is blamed on the line of
  the character that breaks a lexeme off. Any other problem is blamed on the line of the first token of one of
  the top-level statements of this very text, also if it arises in a function of an earlier text; all
  statements before that one have been read, accepted or run. So no problem lies below the last line.
Main exports: Session.TokensAfter, Session.Begins, Session.Placed, Session.problems_are_placed
-/
import Kiln.Proofs.Grammar.TopLevel
import Kiln.Proofs.Lexing.Faults
import Kiln.Proofs.Scoping.Validity
import Kiln.Proofs.Session.Lines
import Kiln.Proofs.Session.Pieces

namespace Kiln

open Kiln.Parser Piece Lexing

/-! ### From tokens to the text -/

/-- Right after the text `above` the source goes on with a lexeme, and from there on it has these tokens. -/
def TokensAfter (source : String) (above : List Char) (tokens : List Token) : Prop :=
  ∃ pieces lexeme behind, Cut (pieces ++ .lexeme lexeme :: behind) ∧
    textOf (pieces ++ .lexeme lexeme :: behind) = source.toList ∧ textOf pieces = above ∧
    tokens = tokensOf above (.lexeme lexeme :: behind) ++ [Token.eof (source.toList.count '\n' + 1)]

theorem Piece.Cut.right {first second : List Piece} (h : Cut (first ++ second)) : Cut second := by
  induction first with
  | nil => exact h
  | cons p rest ih => exact ih h.2

/-- Where the tokens of a row of pieces are split before one of them, the row is split before its lexeme. -/
theorem Piece.exists_split_of_tokensOf {pieces : List Piece} {before : List Char} {first rest : List Token}
    {t : Token} (h : tokensOf before pieces = first ++ t :: rest) :
    ∃ front lexeme behind, pieces = front ++ .lexeme lexeme :: behind ∧
      t :: rest = tokensOf (before ++ textOf front) (.lexeme lexeme :: behind) := by
  induction pieces generalizing before first with
  | nil => simp [tokensOf] at h
  | cons p pieces ih =>
      have hskip : ∀ {first' : List Token}, tokensOf (before ++ p.text) pieces = first' ++ t :: rest →
          ∃ front lexeme behind, p :: pieces = front ++ .lexeme lexeme :: behind ∧
            t :: rest = tokensOf (before ++ textOf front) (.lexeme lexeme :: behind) := by
        intro first' hrest
        obtain ⟨front, lexeme, behind, rfl, htokens⟩ := ih hrest
        refine ⟨p :: front, lexeme, behind, rfl, ?_⟩
        rw [htokens, textOf_cons, List.append_assoc]
      rw [tokensOf] at h
      cases htoken : p.token? (before.count '\n') with
      | none =>
          rw [htoken] at h
          exact hskip h
      | some u =>
          rw [htoken, Option.toList_some, List.singleton_append] at h
          cases first with
          | cons v first =>
              obtain ⟨-, hrest⟩ := List.cons.inj h
              exact hskip hrest
          | nil =>
              cases p with
              | blank c => cases htoken
              | comment text => cases htoken
              | lexeme text =>
                  refine ⟨[], text, pieces, rfl, ?_⟩
                  rw [textOf_nil, List.append_nil, tokensOf, htoken]
                  exact h.symm

namespace TokensAfter

variable {source : String} {above : List Char} {tokens : List Token}

/-- The first of the tokens lies on the line that is told by the line feeds in the text above. -/
theorem line_front (h : TokensAfter source above tokens) : (front tokens).line = above.count '\n' := by
  obtain ⟨pieces, lexeme, behind, hcut, -, -, rfl⟩ := h
  obtain ⟨⟨kind, value⟩, hmeans⟩ := Option.isSome_iff_exists.1 hcut.right.1.1
  simp [tokensOf, token?, hmeans, front]

/-- The text above is no longer than the source. -/
theorem count_le (h : TokensAfter source above tokens) : above.count '\n' ≤ source.toList.count '\n' := by
  obtain ⟨pieces, lexeme, behind, -, htext, rfl, -⟩ := h
  rw [← htext, textOf_append, List.count_append]
  exact Nat.le_add_right _ _

end TokensAfter

/-- Any tokens that are left of a source, and do not begin with its end, begin with a lexeme of it. -/
theorem exists_tokensAfter {source : String} {tokens rest : List Token} (h : tokenize source = .ok tokens)
    (hpassed : Passed (· ≠ .endOfFile) tokens rest) (hmore : (front rest).kind ≠ .endOfFile) :
    ∃ above, TokensAfter source above rest := by
  obtain ⟨first, rfl, -⟩ := hpassed
  obtain ⟨pieces, htext, hcut, htokens⟩ := (tokenize_eq_ok_iff source _).1 h
  rcases List.eq_nil_or_concat rest with rfl | ⟨more, last, rfl⟩
  · exact absurd rfl hmore
  · rw [List.concat_eq_append, ← List.append_assoc] at htokens
    obtain ⟨hpieces, hlast⟩ := List.append_inj' htokens rfl
    cases hlast
    cases more with
    | nil => exact absurd rfl hmore
    | cons t more =>
        obtain ⟨front, lexeme, behind, rfl, hbegin⟩ := exists_split_of_tokensOf hpieces.symm
        refine ⟨textOf front, front, lexeme, behind, hcut, htext, rfl, ?_⟩
        rw [List.concat_eq_append, hbegin, List.nil_append]

/-! ### The place of a problem -/

namespace Session

/-- Right after the text `above` a top-level statement of the source begins. The statements before it have been
    read, and the parser stands at the first token of this one. -/
structure Begins (s : Session) (source : String) (above : List Char) (before : Program) (here : Cursor) :
    Prop where
  text : TokensAfter source above here.tokens
  reads : ∃ tokens, tokenize source = .ok tokens ∧ Grammar.Reads ⟨tokens, s.drawn⟩ before here

/-- Where the problem with a source text lies. -/
inductive Placed (s : Session) (fuel : Nat) (source : String) : Problem → Prop where
  /-- The text can be cut into pieces up to a lexeme that one of its characters breaks off. -/
  | lexing {pieces : List Piece} {broken rest : List Char} {cause : LexError}
      (cut : CutBefore (broken ++ rest) pieces)
      (text : textOf pieces ++ (broken ++ rest) = source.toList ++ ['\n']) (breaks : Breaks broken rest cause) :
      Placed s fuel source (.lexing ⟨(textOf pieces ++ broken).count '\n', cause⟩)
  /-- All statements before this one are read, and this one is not. -/
  | parsing {above : List Char} {before : Program} {here last : Cursor} {n : Nat} {cause : ParseError}
      (begins : s.Begins source above before here) (fails : Grammar.statement n here = .error cause last) :
      Placed s fuel source (.parsing ⟨above.count '\n', cause⟩)
  /-- All statements are read, those before this one are accepted, and this one is not. -/
  | resolving {above : List Char} {before after : Program} {node : Located Stmt} {here next : Cursor} {n : Nat}
      {a : Annotations} {cause : ResolveError} (read : (s.read source).1 = .ok (before ++ node :: after))
      (begins : s.Begins source above before here) (first : Grammar.statement n here = .ok node.value next)
      (accepted : resolve before = .ok a)
      (rejected : resolve (before ++ [node]) = .error ⟨above.count '\n', cause⟩) :
      Placed s fuel source (.resolving ⟨above.count '\n', cause⟩)
  /-- All statements are accepted, those before this one run, and this one fails or is given up. -/
  | running {above : List Char} {before after : Program} {node : Located Stmt} {here next : Cursor} {n : Nat}
      {a : Annotations} {values : List Value} {halt : Halt} (accepts : s.Accepts source (before ++ node :: after) a)
      (begins : s.Begins source above before here) (first : Grammar.statement n here = .ok node.value next)
      (runs : (s.interpreter.run fuel before a).1 = .ok values)
      (fails : (s.interpreter.run fuel (before ++ [node]) a).1 = .error ⟨above.count '\n', halt⟩) :
      Placed s fuel source (.ofHalt ⟨above.count '\n', halt⟩)

variable {s : Session} {fuel : Nat} {source : String}

theorem line_ofHalt (e : Located Halt) : (Problem.ofHalt e).line = e.line := by
  obtain ⟨line, halt⟩ := e
  cases halt <;> rfl

/-- No problem lies below the last line. -/
theorem Placed.line_le {problem : Problem} (h : s.Placed fuel source problem) :
    problem.line ≤ source.toList.count '\n' := by
  cases h with
  | @lexing pieces broken rest cause _ text breaks =>
      obtain ⟨c, after, rfl⟩ : ∃ c after, rest = c :: after := by
        cases breaks <;> exact ⟨_, _, rfl⟩
      have hread : textOf pieces ++ broken <+: source.toList ++ ['\n'] :=
        ⟨c :: after, by rw [List.append_assoc, text]⟩
      have hprefix : textOf pieces ++ broken <+: source.toList := by
        apply List.prefix_of_prefix_length_le hread (List.prefix_append _ _)
        have hlength := congrArg List.length text
        simp only [List.length_append, List.length_cons, List.length_nil] at hlength ⊢
        omega
      exact hprefix.sublist.count_le '\n'
  | parsing begins => exact begins.text.count_le
  | resolving _ begins => exact begins.text.count_le
  | running _ begins =>
      rw [line_ofHalt]
      exact begins.text.count_le

/-- Where a statement of the source has been begun, it begins in the text too. -/
theorem exists_begins {tokens : List Token} {before : Program} {here : Cursor} (h : tokenize source = .ok tokens)
    (reads : Grammar.Reads ⟨tokens, s.drawn⟩ before here) (more : (front here.tokens).kind ≠ .endOfFile) :
    ∃ above, s.Begins source above before here ∧ (front here.tokens).line = above.count '\n' := by
  obtain ⟨above, htext⟩ := exists_tokensAfter h reads.passed more
  exact ⟨above, ⟨htext, tokens, h, reads⟩, htext.line_front⟩

/-- Each statement of a source that is read begins in the text, on its line. -/
theorem exists_begins_of_parse {tokens : List Token} {before after : Program} {node : Located Stmt}
    (h : tokenize source = .ok tokens) (hparse : (parse tokens s.drawn).result = .ok (before ++ node :: after)) :
    ∃ above here, s.Begins source above before here ∧ node.line = above.count '\n' ∧
      ∃ n next, Grammar.statement n here = .ok node.value next := by
  obtain ⟨last, reads⟩ := Grammar.reads_of_parse hparse
  obtain ⟨here, hbefore, hmore, hline, hfirst⟩ := reads.exists_begun
  obtain ⟨above, hbegins, habove⟩ := exists_begins h hbefore hmore
  exact ⟨above, here, hbegins, hline.trans habove, hfirst⟩

/-- A source that is rejected is rejected at its place. -/
theorem placed_of_rejects {problem : Problem} (h : s.Rejects source problem) (fuel : Nat) :
    s.Placed fuel source problem := by
  cases h with
  | @lexing e lexed =>
      obtain ⟨pieces, broken, rest, hcut, htext, hbreaks, hline⟩ := exists_breaks_of_tokenize lexed
      have hplaced : s.Placed fuel source _ := .lexing hcut htext hbreaks
      rwa [← hline] at hplaced
  | @parsing tokens e lexed parsed =>
      obtain ⟨before, here, reads, hmore, hline, n, last, hfails⟩ := Grammar.exists_of_parse_error parsed
      obtain ⟨above, hbegins, habove⟩ := exists_begins lexed reads hmore
      have hplaced : s.Placed fuel source _ := .parsing hbegins hfails
      rwa [← habove, ← hline] at hplaced
  | @resolving tokens p e lexed parsed resolved =>
      have herror : ∃ m, Scoping.program p .initial = .error e m := by
        unfold resolve at resolved
        split at resolved
        · cases resolved
        · next m hrun =>
          cases resolved
          exact ⟨m, hrun⟩
      obtain ⟨m, hrun⟩ := herror
      obtain ⟨before, node, after, k, rfl, hline, hbefore, hbad⟩ := Scoping.exists_split_of_program_error hrun
      obtain ⟨above, here, hbegins, habove, n, next, hfirst⟩ := exists_begins_of_parse lexed parsed
      have haccepted : resolve before = .ok k.found := by rw [resolve, hbefore]
      have hrejected : resolve (before ++ [node]) = .error e := by rw [resolve, hbad]
      have hread : (s.read source).1 = .ok (before ++ node :: after) := by rw [read_of_parse lexed parsed]
      have he : e = ⟨above.count '\n', e.value⟩ := by rw [← habove, ← hline]
      rw [he] at hrejected ⊢
      exact .resolving hread hbegins hfirst haccepted hrejected

/-- A source that fails when it runs fails at its place. -/
theorem placed_of_run {p : Program} {a : Annotations} (accepts : s.Accepts source p a) {e : Located Halt}
    (h : (s.interpreter.run fuel p a).1 = .error e) : s.Placed fuel source (.ofHalt e) := by
  obtain ⟨tokens, lexed, parsed⟩ := accepts.read
  obtain ⟨w, hrun⟩ := Interpreter.exists_world_of_run_eq_error h
  obtain ⟨before, node, after, values, v, rfl, hline, hbefore, hbad⟩ :=
    Evaluate.exists_split_of_program_error hrun
  obtain ⟨above, here, hbegins, habove, n, next, hfirst⟩ := exists_begins_of_parse lexed parsed
  have hruns := congrArg Prod.fst (Interpreter.run_of_program_ok hbefore)
  have hfails := congrArg Prod.fst (Interpreter.run_of_program_error hbad)
  have he : e = ⟨above.count '\n', e.value⟩ := by rw [← habove, ← hline]
  rw [he] at hfails ⊢
  exact .running accepts hbegins hfirst hruns hfails

/-- Every problem with a source text lies at its place in the text: where a lexeme is broken off, or at the first
    token of the first top-level statement that is not read, not accepted or not run. This holds in every
    session. So no problem is reported on a line below the last one. -/
theorem problems_are_placed {problem : Problem} (h : (s.submit fuel source).1 = .error problem) :
    s.Placed fuel source problem ∧ problem.line ≤ source.toList.count '\n' := by
  have hplaced : s.Placed fuel source problem := by
    rcases s.accepts_or_rejects source with ⟨p, a, accepts⟩ | ⟨other, rejects⟩
    · rw [submit_of_accepts accepts] at h
      cases hrun : (s.interpreter.run fuel p a).1 with
      | ok values =>
          rw [hrun] at h
          cases h
      | error e =>
          rw [hrun] at h
          cases h
          exact placed_of_run accepts hrun
    · rw [submit_of_rejects rejects] at h
      cases h
      exact placed_of_rejects rejects fuel
  exact ⟨hplaced, hplaced.line_le⟩

/-- The line on which a problem with a text is reported, if there is one. -/
def problemLine? (s : Session) (fuel : Nat) (source : String) : Option Nat :=
  match (s.submit fuel source).1 with
  | .error problem => some problem.line
  | .ok _ => none

theorem exists_of_problemLine? {line : Nat} (h : s.problemLine? fuel source = some line) :
    ∃ problem, (s.submit fuel source).1 = .error problem ∧ problem.line = line := by
  unfold problemLine? at h
  split at h
  · next problem hproblem =>
    cases h
    exact ⟨problem, hproblem, rfl⟩
  · cases h

/-- A session in which a function has been declared that reads a variable of nobody. -/
def borrowing : Session := ((new default).submit 30 "func f(n) \x7b\n return n + m\n\x7d").2

/-- A text that calls the function on its fifth line, below a comment and a text of two lines. -/
def borrower : String := "// twice\n\"a\nb\"\n\nf(1)\n"

/-- A text that ends, on its third line, within the statement that it begins on the first. -/
def unfinished : String := "x := 1\n\n(x +"

/-- A call of a function of an earlier text fails where the call stands, and a text that ends too early is blamed
    on the line where its last statement begins. -/
theorem problems_are_placed_of_borrowed :
    (∃ failure, (borrowing.submit 30 borrower).1 = .error failure ∧ failure.line = 4 ∧
      borrowing.Placed 30 borrower failure) ∧
    ∃ early, (borrowing.submit 30 unfinished).1 = .error early ∧ early.line = 0 ∧
      borrowing.Placed 30 unfinished early := by
  have hline : borrowing.problemLine? 30 borrower = some 4 := by decide +kernel
  have hline' : borrowing.problemLine? 30 unfinished = some 0 := by decide +kernel
  obtain ⟨failure, hfails, hline⟩ := exists_of_problemLine? hline
  obtain ⟨early, hends, hline'⟩ := exists_of_problemLine? hline'
  exact ⟨⟨failure, hfails, hline, (problems_are_placed hfails).1⟩,
    ⟨early, hends, hline', (problems_are_placed hends).1⟩⟩

end Session

end Kiln
