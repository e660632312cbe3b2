/-
Module: Kiln.Proofs.Grammar.TopLevel
Purpose: A program is read statement by statement. Each statement of a program lies on the line of the token at
  which it has been begun, and a parse that fails is blamed on the token at which its last statement has
  been begun, when all statements before that one have been read.
Main exports: Grammar.Reads, Grammar.Reads.exists_begun, Grammar.reads_of_parse, Grammar.exists_of_parse_error
-/
import Kiln.Proofs.Grammar.Progress

namespace Kiln

open Kiln.Parser

namespace Grammar

/-- From the cursor `c` on, the statements of the program have been read one after the other, which has led to
    another cursor. Each is placed on the line of the token at which it has been begun. -/
inductive Reads : Cursor → Program → Cursor → Prop where
  | nil (c : Cursor) : Reads c [] c
  | cons {n : Nat} {c mid last : Cursor} {s : Stmt} {rest : Program}
      (more : (front c.tokens).kind ≠ .endOfFile) (first : statement n c = .ok s mid)
      (others : Reads mid rest last) : Reads c (⟨(front c.tokens).line, s⟩ :: rest) last

namespace Reads

variable {c last : Cursor} {p before after : Program} {node : Located Stmt}

/-- No end of the source has been read over. -/
theorem passed (h : Reads c p last) : Passed (· ≠ .endOfFile) c.tokens last.tokens := by
  induction h with
  | nil c => exact .refl c.tokens
  | @cons n c mid last s rest _ first _ ih =>
      have hrun := (advancing n).statement c.tokens c.drawn
      rw [first] at hrun
      exact hrun.1.trans ih

/-- Each statement has been begun at a token, and lies on the line of that token. -/
theorem exists_begun (h : Reads c (before ++ node :: after) last) :
    ∃ here, Reads c before here ∧ (front here.tokens).kind ≠ .endOfFile ∧
      node.line = (front here.tokens).line ∧ ∃ n next, statement n here = .ok node.value next := by
  induction before generalizing c with
  | nil =>
      cases h with
      | cons more first others => exact ⟨c, .nil c, more, rfl, _, _, first⟩
  | cons earlier before ih =>
      cases h with
      | cons more first others =>
          obtain ⟨here, hbefore, hrest⟩ := ih others
          exact ⟨here, .cons more first hbefore, hrest⟩

end Reads

/-- A program that is parsed has been read statement by statement. -/
theorem reads_of_program {n : Nat} {c last : Cursor} {p : Program} (h : program n c = .ok p last) :
    Reads c p last := by
  induction n generalizing c p with
  | zero => cases h
  | succ n ih =>
      by_cases hend : (front c.tokens).kind = .endOfFile
      · rw [program_endOfFile n c.drawn hend] at h
        cases h
        exact .nil c
      · rw [program_statement n c.drawn hend] at h
        cases hs : statement n c with
        | error e mid =>
            rw [hs] at h
            cases h
        | ok s mid =>
            simp only [hs] at h
            cases hrest : program n mid with
            | error e last' =>
                rw [hrest] at h
                cases h
            | ok rest last' =>
                rw [hrest] at h
                cases h
                exact .cons hend hs (ih hrest)

/-- Where a parse fails, with depth enough: a statement has been begun at a token and is not read, and the
    failure lies on the line of that token. -/
theorem exists_of_program_error {n : Nat} {c last : Cursor} {e : Located ParseError}
    (h : program n c = .error e last) (hdeep : 16 * c.tokens.length + 14 ≤ n) :
    ∃ before here, Reads c before here ∧ (front here.tokens).kind ≠ .endOfFile ∧
      e.line = (front here.tokens).line ∧ ∃ n last, statement n here = .error e.value last := by
  induction n generalizing c with
  | zero => omega
  | succ n ih =>
      by_cases hend : (front c.tokens).kind = .endOfFile
      · rw [program_endOfFile n c.drawn hend] at h
        cases h
      · have hmoves := (advancing n).statement c.tokens c.drawn
        rw [program_statement n c.drawn hend] at h
        cases hs : statement n c with
        | error cause last' =>
            rw [hs] at h
            cases h
            exact ⟨[], c, .nil c, hend, rfl, n, _, hs⟩
        | ok s mid =>
            rw [hs] at hmoves
            have hfewer : mid.tokens.length + 1 ≤ c.tokens.length := hmoves.2
            simp only [hs] at h
            cases hrest : program n mid with
            | ok rest last' =>
                rw [hrest] at h
                cases h
            | error e' last' =>
                rw [hrest] at h
                cases h
                obtain ⟨before, here, hbefore, hfails⟩ := ih hrest (by omega)
                exact ⟨_, here, .cons hend hs hbefore, hfails⟩

theorem reads_of_parse {tokens : List Token} {drawn : Nat} {p : Program}
    (h : (parse tokens drawn).result = .ok p) : ∃ last, Reads ⟨tokens, drawn⟩ p last := by
  rw [parse] at h
  split at h
  · next last hrun =>
    cases h
    exact ⟨last, reads_of_program hrun⟩
  · cases h

theorem exists_of_parse_error {tokens : List Token} {drawn : Nat} {e : Located ParseError}
    (h : (parse tokens drawn).result = .error e) :
    ∃ before here, Reads ⟨tokens, drawn⟩ before here ∧ (front here.tokens).kind ≠ .endOfFile ∧
      e.line = (front here.tokens).line ∧ ∃ n last, statement n here = .error e.value last := by
  rw [parse] at h
  split at h
  · cases h
  · next e' last hrun =>
    cases h
    exact exists_of_program_error hrun (depthFor_enough tokens)

end Grammar

end Kiln
