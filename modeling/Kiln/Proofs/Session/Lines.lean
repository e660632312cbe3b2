/-
Module: Kiln.Proofs.Session.Lines
Purpose: Sessions of source lines. Each line is read, checked and run on the state that the lines before it have
  left. A line is accepted if all of it can be read and checked; otherwise it is rejected, and then only the count
  of drawn ids changes.
Main exports: Line, Session.after, Session.Accepts, Session.Rejects, Session.accepts_or_rejects,
  Session.submit_of_accepts, Session.submit_of_rejects, Session.le_drawnBy
-/
import Kiln.Proofs.Renumbering.Parsing
import Kiln.Session

namespace Kiln

/-- A line of a session, and the bound on its evaluation. -/
structure Line where
  source : String
  fuel : Nat
deriving DecidableEq, Repr, Inhabited

namespace Session

/-- The session after some lines. -/
def after (s : Session) (lines : List Line) : Session :=
  lines.foldl (fun s line => (s.submit line.fuel line.source).2) s

theorem after_cons (s : Session) (line : Line) (lines : List Line) :
    s.after (line :: lines) = (s.submit line.fuel line.source).2.after lines := rfl

theorem after_append (s : Session) (first second : List Line) :
    s.after (first ++ second) = (s.after first).after second :=
  List.foldl_append

/-- The text is read as the program `p`, and the analysis finds the distances `a`. -/
structure Accepts (s : Session) (source : String) (p : Program) (a : Annotations) : Prop where
  read : ∃ tokens, tokenize source = .ok tokens ∧ (parse tokens s.drawn).result = .ok p
  resolved : resolve p = .ok a

/-- The text is no list of tokens, or no program, or no program that the analysis accepts, and this is the
    problem with it. -/
inductive Rejects (s : Session) (source : String) : Problem → Prop where
  | lexing {e : Located LexError} (lexed : tokenize source = .error e) : Rejects s source (.lexing e)
  | parsing {tokens : List Token} {e : Located ParseError} (lexed : tokenize source = .ok tokens)
      (parsed : (parse tokens s.drawn).result = .error e) : Rejects s source (.parsing e)
  | resolving {tokens : List Token} {p : Program} {e : Located ResolveError}
      (lexed : tokenize source = .ok tokens) (parsed : (parse tokens s.drawn).result = .ok p)
      (resolved : resolve p = .error e) : Rejects s source (.resolving e)

theorem accepts_or_rejects (s : Session) (source : String) :
    (∃ p a, s.Accepts source p a) ∨ ∃ problem, s.Rejects source problem := by
  cases hlex : tokenize source with
  | error e => exact .inr ⟨_, .lexing hlex⟩
  | ok tokens =>
      cases hparse : (parse tokens s.drawn).result with
      | error e => exact .inr ⟨_, .parsing hlex hparse⟩
      | ok p =>
          cases hresolve : resolve p with
          | error e => exact .inr ⟨_, .resolving hlex hparse hresolve⟩
          | ok a => exact .inl ⟨p, a, ⟨tokens, hlex, hparse⟩, hresolve⟩

theorem Accepts.unique {s : Session} {source : String} {p q : Program} {a b : Annotations}
    (h : s.Accepts source p a) (h' : s.Accepts source q b) : p = q ∧ a = b := by
  obtain ⟨⟨tokens, hlex, hparse⟩, hresolve⟩ := h
  obtain ⟨⟨tokens', hlex', hparse'⟩, hresolve'⟩ := h'
  cases hlex.symm.trans hlex'
  cases hparse.symm.trans hparse'
  cases hresolve.symm.trans hresolve'
  exact ⟨rfl, rfl⟩

theorem Accepts.not_rejects {s : Session} {source : String} {p : Program} {a : Annotations}
    (h : s.Accepts source p a) (problem : Problem) : ¬ s.Rejects source problem := by
  obtain ⟨⟨tokens, hlex, hparse⟩, hresolve⟩ := h
  intro rejects
  cases rejects with
  | lexing hlex' => cases hlex.symm.trans hlex'
  | parsing hlex' hparse' =>
      cases hlex.symm.trans hlex'
      cases hparse.symm.trans hparse'
  | resolving hlex' hparse' hresolve' =>
      cases hlex.symm.trans hlex'
      cases hparse.symm.trans hparse'
      cases hresolve.symm.trans hresolve'

/-- How many ids have been drawn once the text is read. -/
def drawnBy (s : Session) (source : String) : Nat := (s.read source).2.drawn

theorem drawnBy_of_tokenize {s : Session} {source : String} {tokens : List Token}
    (h : tokenize source = .ok tokens) : s.drawnBy source = (parse tokens s.drawn).drawn := by
  rw [drawnBy, read, h]

theorem drawnBy_of_tokenize_error {s : Session} {source : String} {e : Located LexError}
    (h : tokenize source = .error e) : s.drawnBy source = s.drawn := by
  rw [drawnBy, read, h]

theorem read_of_parse {s : Session} {source : String} {tokens : List Token} {p : Program}
    (hlex : tokenize source = .ok tokens) (hparse : (parse tokens s.drawn).result = .ok p) :
    s.read source = (.ok p, { s with drawn := (parse tokens s.drawn).drawn }) := by
  rw [read, hlex]
  simp only [hparse]
  rfl

/-- An accepted line runs. -/
theorem submit_of_accepts {s : Session} {source : String} {p : Program} {a : Annotations}
    (h : s.Accepts source p a) (fuel : Nat) :
    s.submit fuel source =
      ((s.interpreter.run fuel p a).1.mapError .ofHalt,
        ⟨(s.interpreter.run fuel p a).2, s.drawnBy source⟩) := by
  obtain ⟨⟨tokens, hlex, hparse⟩, hresolve⟩ := h
  have hcheck : check p = .ok a := by
    rw [check, hresolve]
    rfl
  rw [submit, read_of_parse hlex hparse, drawnBy_of_tokenize hlex]
  simp only [execute, hcheck]
  rfl

/-- A rejected line does not run. -/
theorem submit_of_rejects {s : Session} {source : String} {problem : Problem}
    (h : s.Rejects source problem) (fuel : Nat) :
    s.submit fuel source = (.error problem, { s with drawn := s.drawnBy source }) := by
  cases h with
  | lexing hlex => rw [drawnBy_of_tokenize_error hlex, submit, read, hlex]
  | parsing hlex hparse =>
      rw [drawnBy_of_tokenize hlex, submit, read, hlex]
      simp only [hparse]
      rfl
  | resolving hlex hparse hresolve =>
      rw [drawnBy_of_tokenize hlex, submit, read_of_parse hlex hparse]
      simp only [execute, check, hresolve]
      rfl

/-- The count of drawn ids after a line depends on how it is read only. -/
theorem drawn_submit (s : Session) (fuel : Nat) (source : String) :
    (s.submit fuel source).2.drawn = s.drawnBy source := by
  rcases s.accepts_or_rejects source with ⟨p, a, h⟩ | ⟨problem, h⟩
  · rw [submit_of_accepts h]
  · rw [submit_of_rejects h]

theorem le_drawnBy (s : Session) (source : String) : s.drawn ≤ s.drawnBy source := by
  cases hlex : tokenize source with
  | error e => exact Nat.le_of_eq (drawnBy_of_tokenize_error hlex).symm
  | ok tokens =>
      rw [drawnBy_of_tokenize hlex]
      exact le_drawn_parse tokens s.drawn

theorem le_drawn_after (s : Session) (lines : List Line) : s.drawn ≤ (s.after lines).drawn := by
  induction lines generalizing s with
  | nil => exact Nat.le_refl _
  | cons line rest ih =>
      have hfirst := s.le_drawnBy line.source
      rw [← s.drawn_submit line.fuel] at hfirst
      exact Nat.le_trans hfirst (ih _)

end Session

end Kiln
