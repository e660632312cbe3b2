/-
Module: Kiln.Proofs.Grammar.Termination
Purpose: Parsing always ends. A rule is nested as deep as its depth allows, and a rule that may not nest at
  all gives up. No failure is ever caught, so a call that does not give up has come to its end with no rule
  giving up inside it; such a call does the same at every greater depth. The depth that is chosen for a
  list of tokens is enough for it, whatever the tokens are: without an end of the source, with several,
  or in any order.
Main exports: Parser.EndsWithin, Parser.Advances, InStep.endsWithin, parsing_ends_and_advances
-/
import Kiln.Proofs.Grammar.Endings

namespace Kiln

namespace Parser

variable {α : Type}

/-- On the tokens `ts` the rule comes to an end: it does the same at the depth `enough` and at any greater
    one, and does not give up. -/
def EndsWithin (enough : Nat) (rule : Nat → Parser α) (ts : List Token) : Prop :=
  ∀ n drawn, enough ≤ n → rule n ⟨ts, drawn⟩ = rule enough ⟨ts, drawn⟩ ∧
    ∀ e c, rule n ⟨ts, drawn⟩ = .error e c → e ≠ .noToken

/-- A call leaves a tail of the tokens `ts`, whether it succeeds or fails. If it succeeds, it has taken at
    least one of them. -/
def Advances (p : Parser α) (ts : List Token) : Prop :=
  ∀ drawn, match p ⟨ts, drawn⟩ with
    | .ok _ c => c.tokens <:+ ts ∧ c.tokens.length < ts.length
    | .error _ c => c.tokens <:+ ts

variable {ts left : List Token}

theorem Takes.advances {p : Parser α} {deep : Prop} (h : Takes 1 p deep ts) : Advances p ts := by
  intro drawn
  have hrun := h drawn
  cases hp : p ⟨ts, drawn⟩ with
  | ok a c =>
      rw [hp] at hrun
      exact ⟨hrun.1.suffix, Nat.lt_of_succ_le hrun.2⟩
  | error e c =>
      rw [hp] at hrun
      exact hrun.1.suffix

theorem Moves.ne_noToken {p : Parser α} {deep : Prop} {Q : α → List Token → Prop} (h : Moves p deep ts Q)
    (hdeep : deep) {drawn : Nat} {e : ParseError} {c : Cursor} (he : p ⟨ts, drawn⟩ = .error e c) :
    e ≠ .noToken := by
  have hrun := h drawn
  rw [he] at hrun
  exact (ParseError.ne_of_isInternal (hrun.2 hdeep)).2

/-- With the same behind the end of the source, two runs are one, unless the first has given up. -/
theorem Agree.eq {r r' : EStateM.Result ParseError Cursor α} (h : Agree left left r r')
    (hr : ∀ e c, r = .error e c → e ≠ .noToken) : r' = r := by
  cases h with
  | gaveUp c other => exact absurd rfl (hr .noToken c rfl)
  | ok a drawn unended => rfl
  | error rest drawn alike => rw [alike.eq rfl]

/-- Any list of tokens goes up to where the source ends. -/
theorem exists_unended_append (tokens : List Token) :
    ∃ ts rest, tokens = ts ++ rest ∧ Unended ts ∧ Endings rest rest := by
  induction tokens with
  | nil => exact ⟨[], [], rfl, nofun, rfl, rfl⟩
  | cons t more ih =>
      by_cases hend : t.kind = .endOfFile
      · exact ⟨[], t :: more, rfl, nofun, hend, hend⟩
      · obtain ⟨ts, rest, rfl, hts, hrest⟩ := ih
        exact ⟨t :: ts, rest, rfl, List.forall_mem_cons.2 ⟨hend, hts⟩, hrest⟩

/-- A rule that keeps in step with itself at any greater depth ends where it has depth enough for the
    tokens. -/
theorem InStep.endsWithin {rule : Nat → Parser α} {enough : Nat} {Q : α → List Token → Prop}
    (hstep : ∀ {ts left}, Endings left left → ∀ k n, Unended ts →
      InStep left left (rule n) (rule (k + n)) ts)
    (hmoves : ∀ n, Moves (rule n) (enough ≤ n) ts Q) : EndsWithin enough rule ts := by
  obtain ⟨ts, rest, rfl, hts, hends⟩ := exists_unended_append ts
  intro n drawn hn
  obtain ⟨k, rfl⟩ : ∃ k, n = k + enough := ⟨n - enough, by omega⟩
  have hagree := hstep hends k enough hts drawn
  exact ⟨hagree.eq fun e c => (hmoves enough).ne_noToken (Nat.le_refl _),
    fun e c => (hmoves _).ne_noToken hn⟩

end Parser

namespace Grammar

open Kiln.Parser

theorem ProgramsAgree.eq {left : List Token} {r r' : EStateM.Result (Located ParseError) Cursor Program}
    (h : ProgramsAgree left left r r') (hr : ∀ e c, r = .error e c → e.value ≠ .noToken) : r' = r := by
  cases h with
  | gaveUp line c other => exact absurd rfl (hr ⟨line, .noToken⟩ c rfl)
  | ok p drawn => rfl
  | error line rest drawn alike => rw [alike.eq rfl]

theorem program_ne_noToken {n : Nat} {tokens : List Token} {drawn : Nat} {e : Located ParseError} {c : Cursor}
    (hn : depthFor tokens ≤ n) (h : program n ⟨tokens, drawn⟩ = .error e c) : e.value ≠ .noToken :=
  (ParseError.ne_of_isInternal (program_isInternal h (Nat.le_trans (depthFor_enough tokens) hn))).2

theorem program_depth {n : Nat} {tokens : List Token} (hn : depthFor tokens ≤ n) (drawn : Nat) :
    program n ⟨tokens, drawn⟩ = program (depthFor tokens) ⟨tokens, drawn⟩ := by
  obtain ⟨k, rfl⟩ : ∃ k, n = k + depthFor tokens := ⟨n - depthFor tokens, by omega⟩
  obtain ⟨ts, rest, rfl, hts, hends⟩ := exists_unended_append tokens
  exact (program_agree hends k _ hts drawn).eq fun e c => program_ne_noToken (Nat.le_refl _)

/-- Parsing ends and makes progress on every list of tokens. The depth chosen for the tokens is never used
    up, and a greater one would change nothing, neither for a program nor for a statement or an expression.
    Each call of one of these leaves a tail of its tokens, and takes at least one when it succeeds; so do
    the other rules, as `Advancing` lists them. -/
theorem parsing_ends_and_advances (tokens : List Token) :
    (∀ n drawn, depthFor tokens ≤ n →
      program n ⟨tokens, drawn⟩ = program (depthFor tokens) ⟨tokens, drawn⟩ ∧
        ∀ e c, program n ⟨tokens, drawn⟩ = .error e c → e.value ≠ .noToken) ∧
    EndsWithin (depthFor tokens) statement tokens ∧
    EndsWithin (depthFor tokens) expression tokens ∧
    (∀ n, Advances (statement n) tokens ∧ Advances (expression n) tokens) ∧
    ∀ n, Advancing n := by
  have henough := depthFor_enough tokens
  refine ⟨fun n drawn hn => ⟨program_depth hn drawn, fun e c => program_ne_noToken hn⟩, ?_, ?_,
    fun n => ⟨((advancing n).statement tokens).advances, ((advancing n).expression tokens).advances⟩,
    advancing⟩
  · exact InStep.endsWithin (fun hends k n => (parallel hends k n).statement)
      fun n => ((advancing n).statement tokens).mono (by omega) fun _ _ h => h
  · exact InStep.endsWithin (fun hends k n => (parallel hends k n).expression)
      fun n => ((advancing n).expression tokens).mono (by omega) fun _ _ h => h

/-- A parenthesis that nothing opens, and more tokens behind the end of the source. -/
theorem parsing_ends_and_advances_of_scattered :
    let tokens : List Token := [⟨.identifier, "a", 0⟩, ⟨.closeParen, ")", 0⟩, .eof 0, ⟨.ifWord, "if", 1⟩]
    program 300 ⟨tokens, 3⟩ = program (depthFor tokens) ⟨tokens, 3⟩ ∧
      (∃ e c, program 300 ⟨tokens, 3⟩ = .error e c ∧ e.value ≠ .noToken) ∧
      statement 300 ⟨tokens, 3⟩ = statement (depthFor tokens) ⟨tokens, 3⟩ ∧
      ∃ s c, statement 300 ⟨tokens, 3⟩ = .ok s c ∧ c.tokens.length < tokens.length := by
  intro tokens
  have hdeep : depthFor tokens ≤ 300 := by decide
  obtain ⟨hprogram, hstatement, -, hadvances, -⟩ := parsing_ends_and_advances tokens
  obtain ⟨hsame, hwhole⟩ := hprogram 300 3 hdeep
  have hfails : program 300 ⟨tokens, 3⟩ = .error ⟨0, .unexpectedToken ")"⟩ ⟨tokens.drop 1, 4⟩ := by rfl
  have hreads : statement 300 ⟨tokens, 3⟩ = .ok (.expr (.var "a" ⟨3⟩)) ⟨tokens.drop 1, 4⟩ := by rfl
  have hfewer := (hadvances 300).1 3
  rw [hreads] at hfewer
  exact ⟨hsame, ⟨_, _, hfails, hwhole _ _ hfails⟩, (hstatement 300 3 hdeep).1, _, _, hreads, hfewer.2⟩

end Grammar

end Kiln
