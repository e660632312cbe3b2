/-
Module: Kiln.Proofs.Session.Turns
Purpose: Sessions and the programs that run in them. Each line that is accepted runs as a program, on the
  interpreter that the lines before it have left. As long as the ids do not come round again, no two references
  of these programs have the same id.
Main exports: Session.Turn, Session.Runs, Session.Past, Session.Past.after
-/
import Kiln.Proofs.Grammar.Numbering
import Kiln.Proofs.Session.History
import Kiln.Proofs.Session.Lines

namespace Kiln.Session

open Interpreter (History)

/-- One of the lines is accepted. It runs as the program `p` with the distances `a`, on this interpreter and with
    this bound. -/
inductive Turn : Session → List Line → Nat → Interpreter → Program → Annotations → Prop where
  | here {s : Session} {line : Line} {rest : List Line} {p : Program} {a : Annotations}
      (accepts : s.Accepts line.source p a) : Turn s (line :: rest) line.fuel s.interpreter p a
  | later {s : Session} {line : Line} {rest : List Line} {fuel : Nat} {i : Interpreter} {p : Program}
      {a : Annotations} (h : Turn (s.submit line.fuel line.source).2 rest fuel i p a) :
      Turn s (line :: rest) fuel i p a

/-- A program that runs as one of the lines. -/
def Runs (s : Session) (lines : List Line) (p : Program) : Prop := ∃ fuel i a, s.Turn lines fuel i p a

/-- A session in which these programs have run. -/
structure Past (sink : Sink) (ps : List Program) (s : Session) : Prop where
  history : History sink ps s.interpreter
  ids : s.drawn ≤ NodeId.count → Drawn 0 s.drawn (ps.flatMap Program.ids)

namespace Past

variable {sink : Sink} {ps : List Program} {s : Session}

theorem start (sink : Sink) : Past sink [] (new sink) :=
  ⟨.fresh, fun _ => .nil (Nat.le_refl 0)⟩

/-- A line that is accepted adds its program. -/
theorem accept (h : Past sink ps s) {source : String} {p : Program} {a : Annotations}
    (accepts : s.Accepts source p a) (fuel : Nat) : Past sink (ps ++ [p]) (s.submit fuel source).2 := by
  obtain ⟨tokens, hlex, hparse⟩ := accepts.read
  rw [submit_of_accepts accepts, drawnBy_of_tokenize hlex]
  constructor
  · exact h.history.line accepts.resolved fuel
  · intro few
    have hnew := drawn_of_parse hparse few
    have hold := h.ids (Nat.le_trans hnew.le few)
    rw [List.flatMap_append, List.flatMap_singleton]
    exact hold.append hnew

/-- A line that is rejected adds nothing. -/
theorem reject (h : Past sink ps s) {source : String} {problem : Problem}
    (rejects : s.Rejects source problem) (fuel : Nat) : Past sink ps (s.submit fuel source).2 := by
  have hle := s.le_drawnBy source
  rw [submit_of_rejects rejects]
  constructor
  · exact h.history
  · intro few
    exact (h.ids (Nat.le_trans hle few)).mono hle

/-- The programs of a session are those of its turns, in order. -/
theorem after (h : Past sink ps s) (lines : List Line) :
    ∃ later, Past sink (ps ++ later) (s.after lines) ∧ (∀ q ∈ later, s.Runs lines q) ∧
      ∀ fuel i p a, s.Turn lines fuel i p a → ∃ first rest, later = first ++ p :: rest ∧
        History sink (ps ++ first) i ∧ resolve p = .ok a := by
  induction lines generalizing s ps with
  | nil =>
      refine ⟨[], ?_, fun q hq => ?_, fun fuel i p a hturn => ?_⟩
      · rw [List.append_nil]
        exact h
      · cases hq
      · cases hturn
  | cons line lines ih =>
      rcases s.accepts_or_rejects line.source with ⟨p, a, accepts⟩ | ⟨problem, rejects⟩
      · obtain ⟨later, hpast, hruns, hturns⟩ := ih (h.accept accepts line.fuel)
        rw [List.append_assoc] at hpast
        refine ⟨p :: later, hpast, fun q hq => ?_, fun fuel i q b hturn => ?_⟩
        · rcases List.mem_cons.1 hq with rfl | hq
          · exact ⟨line.fuel, s.interpreter, a, .here accepts⟩
          · obtain ⟨fuel, i, b, hturn⟩ := hruns q hq
            exact ⟨fuel, i, b, .later hturn⟩
        · cases hturn with
          | here accepts' =>
              obtain ⟨rfl, rfl⟩ := accepts.unique accepts'
              refine ⟨[], later, rfl, ?_, accepts.resolved⟩
              rw [List.append_nil]
              exact h.history
          | later hturn =>
              obtain ⟨first, rest, rfl, hhistory, hresolve⟩ := hturns fuel i q b hturn
              rw [List.append_assoc] at hhistory
              exact ⟨p :: first, rest, rfl, hhistory, hresolve⟩
      · obtain ⟨later, hpast, hruns, hturns⟩ := ih (h.reject rejects line.fuel)
        refine ⟨later, hpast, fun q hq => ?_, fun fuel i q b hturn => ?_⟩
        · obtain ⟨fuel, i, b, hturn⟩ := hruns q hq
          exact ⟨fuel, i, b, .later hturn⟩
        · cases hturn with
          | here accepts => exact absurd rejects (accepts.not_rejects _)
          | later hturn => exact hturns fuel i q b hturn

end Past

end Kiln.Session
