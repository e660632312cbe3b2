/-
Module: Kiln.Proofs.DeadCode.Running
Purpose: Code after a `return` is dead. A `return` ends every block, branch, loop and list of statements around it,
  up to the call of its function, in the world in which it has been carried out. So a program that is accepted is
  accepted without what comes after a `return`, with the same distances, and on a new interpreter both
  print the same, show the same values, or fail on the same line for the same cause.
Main exports: Task.Through, Task.Returns, Task.Through.returns, SameShown, Program.live_alike
-/
import Kiln.Proofs.DeadCode.Pruning
import Kiln.Proofs.Evaluation.Safe
import Kiln.Proofs.Evaluation.Visits

namespace Kiln

/-! ### The way of a `return` -/

namespace Evaluate.Task

open Eval

/-- Whether a task carries out statements: one, several, or those of a loop. -/
def isStatement : Task → Bool
  | .stmt _ _ => true
  | .stmts _ _ => true
  | .loop _ _ _ => true
  | _ => false

/-- A task comes to a statement inside it, through lists of statements, blocks, branches and loops, but not through
    another call. Each of the two has its bound and the world in which it is begun. -/
inductive Through (find : Finder) : Task → Nat → World → Task → Nat → World → Prop where
  | here (t : Task) (n : Nat) (w : World) : Through find t n w t n w
  | inside {n m : Nat} {t t' t'' : Task} {w w' w'' : World} (entered : Enters find n t w t' w')
      (statement : t'.isStatement = true) (rest : Through find t' n w' t'' m w'') :
      Through find t (n + 1) w t'' m w''

/-- A task ends with a `return` of a value, and a call with that value. -/
def Returns (find : Finder) (t : Task) (n : Nat) (w : World) (v : Value) (u : World) : Prop :=
  match t with
  | .stmt s scope => Evaluate.stmt find n s scope w = .ok (.returned v) u
  | .stmts ss scope => Evaluate.stmts find n ss scope w = .ok (.returned v) u
  | .loop test body scope => Evaluate.loop find n test body scope w = .ok (.returned v) u
  | .callClosure c args => Evaluate.callClosure find n c args w = .ok v u
  | _ => False

variable {find : Finder} {n m : Nat} {t t' : Task} {w w' u : World} {v : Value}

/-- A task returns if a statement that it enters does. -/
theorem Enters.returns (entered : Enters find n t w t' w') (statement : t'.isStatement = true)
    (h : t'.Returns find n w' v u) : t.Returns find (n + 1) w v u := by
  cases entered with
  | body arity opened done =>
      simp only [Returns, Evaluate.callClosure, arity, ne_eq, not_true_eq_false, if_false] at h ⊢
      rw [bind_of_ok opened, bind_of_ok done, bind_of_ok h]
      rfl
  | block opened =>
      simp only [Returns, Evaluate.stmt] at h ⊢
      rw [bind_of_ok opened, h]
  | thenBranch done | elseBranch done =>
      simp only [Returns, Evaluate.stmt] at h ⊢
      rw [bind_of_ok done]
      exact h
  | loop => exact h
  | head =>
      simp only [Returns, Evaluate.stmts] at h ⊢
      rw [bind_of_ok h]
      rfl
  | tail done =>
      simp only [Returns, Evaluate.stmts] at h ⊢
      rw [bind_of_ok done]
      exact h
  | loopBody done =>
      simp only [Returns, Evaluate.loop] at h ⊢
      rw [bind_of_ok done, if_pos rfl, bind_of_ok h]
      rfl
  | again done done' =>
      simp only [Returns] at h ⊢
      rw [Evaluate.loop, bind_of_ok done, if_pos rfl, bind_of_ok done']
      exact h
  | _ => cases statement

/-- A `return` ends everything on the way to it, and gives its value to the call from which this way starts. -/
theorem Through.returns (through : Through find t n w t' m w') (h : t'.Returns find m w' v u) :
    t.Returns find n w v u := by
  induction through with
  | here t n w => exact h
  | inside entered statement _ ih => exact entered.returns statement (ih h)

end Evaluate.Task

/-! ### What runs show -/

/-- Two runs give values that are shown in the same way, or fail on the same line for the same cause. -/
inductive SameShown :
    Except (Located Halt) (List Value) → Except (Located Halt) (List Value) → Prop where
  | values {vs vs' : List Value} (display : vs'.map Value.display = vs.map Value.display)
      (echo : ∀ palette, vs'.map (Value.echo palette) = vs.map (Value.echo palette)) :
      SameShown (.ok vs) (.ok vs')
  | failed (e : Located Halt) : SameShown (.error e) (.error e)

section Twins

variable {I : NodeId → NodeId → Prop} {p : Program}

/-- What twins have in common is the same for all values of what is left, as it has no assignments in place of
    updates. -/
theorem Program.map_eq_of_twin_live {β : Type} {f : Value → β}
    (hf : ∀ {v v' : Value}, v.Twin I v' → f v' = f v) {vs vs' : List Value}
    (h : Program.ValuesTwin I p p.live vs vs') : vs'.map f = vs.map f := by
  induction p generalizing vs vs' with
  | nil =>
      cases h
      rfl
  | cons node rest ih =>
      obtain ⟨line, s⟩ := node
      simp only [Program.live, List.map_cons] at h
      cases h with
      | cons _ statement head tail => rw [List.map_cons, List.map_cons, hf head, ih tail]
      | change _ statement n tail => cases s <;> cases statement

theorem SameShown.of_twin (linked : ∀ i j, I i j → i = j) {r r' : Except (Located Halt) (List Value)}
    (h : VerdictTwin I p p.live r r') : SameShown r r' := by
  cases h with
  | values h =>
      constructor
      · exact Program.map_eq_of_twin_live Value.Twin.display_eq h
      · intro palette
        exact Program.map_eq_of_twin_live (Value.Twin.echo_eq palette) h
  | failed line h =>
      cases h with
      | same cause => exact .failed _
      | missed name h =>
          cases linked _ _ h
          exact .failed _

end Twins

/-! ### Dead code -/

/-- What is left of an accepted program is accepted, and its distances are those that the program has for
    what is left. -/
theorem exists_resolve_live {p : Program} {a : Annotations} (accepted : resolve p = .ok a)
    (distinct : (Program.ids p).Nodup) :
    ∃ b, resolve p.live = .ok b ∧ (∀ id ∈ Program.ids p.live, b.get? id = a.get? id) ∧
      ∀ id ∉ Program.ids p.live, b.get? id = none := by
  have linked : ∀ i ∈ Program.ids p, ∀ j, i = j → a.get? j = a.get? i := by
    rintro i _ j rfl
    rfl
  obtain ⟨b, accepted', hdistances⟩ :=
    exists_resolve_of_retraces accepted distinct linked (Program.retraces_live p (.refl _))
  exact ⟨b, accepted', hdistances, fun id hid => get?_eq_none_of_notMem_ids accepted' hid⟩

/-- Code after a `return` is dead. If an accepted program, whose references all have ids of their own, is left
    without what comes after a `return` at any depth, then it is still accepted and keeps its distances; and on a
    new interpreter one of the two ends if and only if the other does, with the same output and the same
    values to show, or the same failure on the same line. Indeed a `return` that is carried out ends everything
    around it, up to the call of its function, which gives the value that is returned. -/
theorem Program.live_alike {p : Program} {a : Annotations} (accepted : resolve p = .ok a)
    (distinct : (Program.ids p).Nodup) :
    (∃ b, resolve p.live = .ok b ∧ (∀ id ∈ Program.ids p.live, b.get? id = a.get? id) ∧
      (∀ id ∉ Program.ids p.live, b.get? id = none) ∧
      ∀ sink,
        (∀ r i, (Interpreter.new sink).Ends p a r i → ∃ r' i', (Interpreter.new sink).Ends p.live b r' i' ∧
          i'.world.sink = i.world.sink ∧ SameShown r r') ∧
        ∀ r' i', (Interpreter.new sink).Ends p.live b r' i' → ∃ r i, (Interpreter.new sink).Ends p a r i ∧
          i'.world.sink = i.world.sink ∧ SameShown r r') ∧
    ∀ (find : Finder) (n m : Nat) (t : Evaluate.Task) (value : Option Expr) (scope : ScopeId)
      (w w' u : World) (c : Completion), t.Through find n w (.stmt (.ret value) scope) m w' →
      Evaluate.stmt find m (.ret value) scope w' = .ok c u →
        ∃ v, c = .returned v ∧ t.Returns find n w v u := by
  constructor
  · obtain ⟨b, accepted', hkept, hother⟩ := exists_resolve_live accepted distinct
    refine ⟨b, accepted', hkept, hother, fun sink => ?_⟩
    have twin : p.Twin (fun i j => i = j ∧ b.get? j = a.get? i) p.live := by
      apply (Program.twin_live p).imp
      rintro i j _ hj rfl
      exact ⟨rfl, hkept i hj⟩
    exact Interpreter.ends_alike twin (fun _ _ h => h.2) (.of_twin fun _ _ h => h.1) sink
  · intro find n m t value scope w w' u c through done
    obtain ⟨v, rfl⟩ := Evaluate.returns_of_ret done
    exact ⟨v, rfl, through.returns done⟩

/-- A function that returns from inside a loop, with statements after each `return`. -/
def pickProgram : Program :=
  [⟨0, .function ⟨some "pick", [⟨"x", none⟩], none, [
      .whileLoop (.bool true) (.block [
        .ifElse (.var "x" ⟨0⟩)
          (.block [.ret (some (.number 1)), .expr (.call (.var "print" ⟨1⟩) [.text "dead"])]) none,
        .block [.ret (some (.number 2)), .declare "y" (.number 3), .update ⟨"y", ⟨2⟩⟩ .increment],
        .expr (.call (.var "print" ⟨3⟩) [.text "never"])])]⟩⟩,
    ⟨9, .expr (.call (.var "print" ⟨4⟩) [.call (.var "pick" ⟨5⟩) [.bool true]])⟩,
    ⟨10, .expr (.call (.var "print" ⟨6⟩) [.call (.var "pick" ⟨7⟩) [.bool false]])⟩]

/-- The distances of its references to local variables. -/
def pickDistances : Annotations := (Annotations.empty.record ⟨0⟩ 1).record ⟨2⟩ 0

/-- A loop that is left in its first round. -/
def leftLoop : Stmt := .whileLoop (.bool true) (.block [.ret none, .update ⟨"y", ⟨8⟩⟩ .increment])

/-- Without the statements after a `return`, the program prints the same and has one distance less. A `return`
    leaves a loop that would go on forever. -/
theorem Program.live_alike_of_pick :
    (∃ b r' i', resolve pickProgram.live = .ok b ∧
      b.get? ⟨0⟩ = some 1 ∧ pickDistances.get? ⟨2⟩ = some 0 ∧ b.get? ⟨2⟩ = none ∧
      (Interpreter.new default).Ends pickProgram.live b r' i' ∧
      i'.world.sink.written = "1\n2\n".toUTF8) ∧
    ∃ v u, (Evaluate.Task.stmt leftLoop ⟨1⟩).Returns .walking 5 (Interpreter.new default).world v u := by
  have hok : ((Interpreter.new default).run 20 pickProgram pickDistances).1.isOk = true := by
    decide +kernel
  have hwritten : ((Interpreter.new default).run 20 pickProgram pickDistances).2.world.sink.written
      = "1\n2\n".toUTF8 := by
    decide +kernel
  have resolved : resolve pickProgram = .ok pickDistances := rfl
  obtain ⟨⟨b, accepted, hkept, hother, hruns⟩, hreturn⟩ := Program.live_alike resolved (by decide)
  constructor
  · obtain ⟨r', i', ends', hsink, _⟩ := (hruns default).1 _ _ (Interpreter.ends_of_isOk hok)
    rw [← hsink] at hwritten
    exact ⟨b, r', i', accepted, hkept ⟨0⟩ (by decide), rfl, hother ⟨2⟩ (by decide), ends', hwritten⟩
  · obtain ⟨v, _, hleft⟩ := hreturn .walking 5 1 (.stmt leftLoop ⟨1⟩) none _ _ _ _ _
      (.inside .loop rfl (.inside (.loopBody rfl) rfl (.inside (.block rfl) rfl
        (.inside .head rfl (.here _ _ _))))) rfl
    exact ⟨v, _, hleft⟩

end Kiln
