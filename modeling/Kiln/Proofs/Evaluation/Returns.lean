/-
Module: Kiln.Proofs.Evaluation.Returns
Purpose: Where a `return` comes from. A call takes the value that the body of its function returns, so that a
  statement can only hand on a `return` that stands in it outside of all functions. The analysis accepts no
  such `return` at the top level, and top-level statements run to their end or fail.
Main exports: Evaluate.Ends, Evaluate.stmt_ends, Interpreter.top_level_never_returns
-/
import Kiln.Proofs.Scoping.Validity
import Kiln.Proofs.Session.History

namespace Kiln

namespace Evaluate

/-- The outcome is a `return` only where `returns` holds. -/
def Ends (returns : Bool) (r : EStateM.Result Halt World Completion) : Prop :=
  ∀ v w, r = .ok (.returned v) w → returns = true

namespace Ends

variable {α : Type} {returns : Bool} {w : World}

theorem normal (v : Value) : Ends returns (.ok (.normal v) w) := by
  intro v' w' h
  cases h

theorem error (e : Halt) : Ends returns (.error e w) := by
  intro v w' h
  cases h

theorem returned {r : EStateM.Result Halt World Completion} (h : returns = true) : Ends returns r :=
  fun _ _ _ => h

theorem mono {returns' : Bool} {r : EStateM.Result Halt World Completion} (h : Ends returns r)
    (hle : returns = true → returns' = true) : Ends returns' r :=
  fun v w hr => hle (h v w hr)

theorem bind {p : Eval α} {f : α → Eval Completion}
    (h : ∀ a w', p w = .ok a w' → Ends returns (f a w')) : Ends returns ((p >>= f) w) := by
  cases hp : p w with
  | error e w' =>
      rw [Eval.bind_of_error hp]
      exact .error e
  | ok a w' =>
      rw [Eval.bind_of_ok hp]
      exact h a w' hp

/-- A statement that is followed by others unless it returns. -/
theorem andThen {first rest : Bool} {p : Eval Completion} {q : Eval Completion} (hp : Ends first (p w))
    (hq : ∀ w', Ends rest (q w')) :
    Ends (first || rest) ((p >>= fun
      | .returned value => pure (.returned value)
      | .normal _ => q) w) := by
  apply bind
  intro c w' done
  cases c with
  | returned v => exact .returned (by simp [hp v w' done])
  | normal v => exact (hq w').mono (by simp +contextual)

end Ends

/-- What is to be shown of each bound. -/
structure RunsEnd (find : Finder) (n : Nat) : Prop where
  stmt : ∀ s scope w, Ends s.returns (Evaluate.stmt find n s scope w)
  stmts : ∀ ss scope w, Ends (Stmt.returnsOfAll ss) (Evaluate.stmts find n ss scope w)
  loop : ∀ test body scope w, Ends body.returns (Evaluate.loop find n test body scope w)

variable {find : Finder} {n : Nat}

theorem RunsEnd.stmt_succ (ih : RunsEnd find n) (s : Stmt) (scope : ScopeId) (w : World) :
    Ends s.returns (Evaluate.stmt find (n + 1) s scope w) := by
  cases s with
  | expr e => exact .bind fun v w' _ => .normal v
  | declare name e => exact .bind fun v w' _ => .bind fun _ _ _ => .normal v
  | assign target e => exact .bind fun v w' _ => .bind fun _ _ _ => .normal v
  | update target op =>
      refine .bind fun old w' _ => ?_
      refine .bind fun new w'' _ => ?_
      exact .bind fun _ _ _ => .normal .void
  | setMember object name e =>
      refine .bind fun owner w' _ => ?_
      cases owner with
      | object c id => exact .bind fun v w'' _ => .bind fun _ _ _ => .normal .void
      | _ => exact .error _
  | block body =>
      rw [Stmt.returns]
      exact .bind fun inner w' _ => ih.stmts body inner w'
  | ifElse test thenBranch elseBranch =>
      refine .bind fun truth w' _ => ?_
      cases elseBranch with
      | none =>
          rw [Stmt.returns]
          cases truth with
          | true => exact ih.stmt thenBranch scope w'
          | false => exact .normal .void
      | some branch =>
          rw [Stmt.returns]
          cases truth with
          | true => exact (ih.stmt thenBranch scope w').mono (by simp +contextual)
          | false => exact (ih.stmt branch scope w').mono (by simp +contextual)
  | whileLoop test body =>
      rw [Stmt.returns]
      exact ih.loop test body scope w
  | function f => exact .bind fun c w' _ => .bind fun _ _ _ => .normal .void
  | ret value => exact .returned rfl
  | classDecl name methods =>
      refine .bind fun _ w' _ => ?_
      refine .bind fun identity w'' _ => ?_
      exact .bind fun _ _ _ => .normal .void

theorem RunsEnd.stmts_succ (ih : RunsEnd find n) (ss : List Stmt) (scope : ScopeId) (w : World) :
    Ends (Stmt.returnsOfAll ss) (Evaluate.stmts find (n + 1) ss scope w) := by
  cases ss with
  | nil => exact .normal .void
  | cons s rest =>
      rw [Stmt.returnsOfAll, Evaluate.stmts]
      exact .andThen (ih.stmt s scope w) (ih.stmts rest scope)

theorem RunsEnd.loop_succ (ih : RunsEnd find n) (test : Expr) (body : Stmt) (scope : ScopeId)
    (w : World) : Ends body.returns (Evaluate.loop find (n + 1) test body scope w) := by
  refine .bind fun truth w' _ => ?_
  cases truth with
  | false => exact .normal .void
  | true =>
      rw [← Bool.or_self body.returns]
      exact .andThen (ih.stmt body scope w') (ih.loop test body scope)

theorem runsEnd (find : Finder) (n : Nat) : RunsEnd find n := by
  induction n with
  | zero => exact ⟨fun _ _ _ => .error _, fun _ _ _ => .error _, fun _ _ _ _ => .error _⟩
  | succ n ih => exact ⟨ih.stmt_succ, ih.stmts_succ, ih.loop_succ⟩

end Evaluate

theorem Stmt.returns_of_mem {s : Stmt} {ss : List Stmt} (hs : s ∈ ss) (h : Stmt.returnsOfAll ss = false) :
    s.returns = false := by
  induction ss with
  | nil => cases hs
  | cons first rest ih =>
      rw [Stmt.returnsOfAll, Bool.or_eq_false_iff] at h
      rcases List.mem_cons.1 hs with rfl | hs
      · exact h.1
      · exact ih hs h.2

/-- No top-level statement of an accepted program has a `return` outside of all functions. -/
theorem returns_eq_false_of_resolve {p : Program} {a : Annotations} (accepted : resolve p = .ok a)
    {node : Located Stmt} (hnode : node ∈ p) : node.value.returns = false := by
  have valid : p.Valid := p.accepted_iff.1 ((exists_resolve_iff_accepted p).1 ⟨a, accepted⟩)
  exact Stmt.returns_of_mem (List.mem_map_of_mem hnode) valid.returnsInside

/-- A statement ends with a `return` only if one stands in it outside of all functions. On every interpreter
    that runs an accepted program, a top-level statement that is come to runs to its end or fails. -/
theorem Interpreter.top_level_never_returns (i : Interpreter) {p : Program} {a : Annotations}
    (accepted : resolve p = .ok a) (fuel : Nat) :
    (∀ find n s scope w v w', Evaluate.stmt find n s scope w = .ok (.returned v) w' → s.returns = true) ∧
      ∀ before node rest values w, p = before ++ node :: rest →
        Evaluate.program (i.learn a).finder fuel i.globals before i.world = .ok values w →
        (∃ v w', Evaluate.stmt (i.learn a).finder fuel node.value i.globals w = .ok (.normal v) w') ∨
          ∃ e w', Evaluate.stmt (i.learn a).finder fuel node.value i.globals w = .error e w' := by
  have hends : ∀ find n s scope w v w', Evaluate.stmt find n s scope w = .ok (.returned v) w' →
      s.returns = true :=
    fun find n s scope w => (Evaluate.runsEnd find n).stmt s scope w
  refine ⟨hends, fun before node rest values w hp _ => ?_⟩
  have hnone : node.value.returns = false :=
    returns_eq_false_of_resolve accepted (hp ▸ List.mem_append_right before List.mem_cons_self)
  cases done : Evaluate.stmt (i.learn a).finder fuel node.value i.globals w with
  | error e w' => exact .inr ⟨e, w', rfl⟩
  | ok c w' =>
      cases c with
      | normal v => exact .inl ⟨v, w', rfl⟩
      | returned v =>
          rw [hends _ _ _ _ _ _ _ done] at hnone
          cases hnone

/-- A loop that is left by a `return` in its first round. -/
def leavingLoop : Stmt := .whileLoop (.bool true) (.block [.ret (some (.number 1))])

/-- A function with this loop is declared, and called in a branch. -/
def leavingProgram : Program :=
  [⟨0, .function ⟨some "leave", [], none, [leavingLoop]⟩⟩,
    ⟨1, .ifElse (.bool true) (.block [.expr (.call (.var "leave" ⟨0⟩) [])]) none⟩]

/-- The `return` leaves the function, and the branch that calls it runs to its end. -/
theorem Interpreter.top_level_never_returns_of_call :
    leavingLoop.returns = true ∧
      ∃ values w, Evaluate.program ((new default).learn .empty).finder 20 (new default).globals
          (leavingProgram.take 1) (new default).world = .ok values w ∧
        ∃ v w', Evaluate.stmt ((new default).learn .empty).finder 20 leavingProgram[1].value
          (new default).globals w = .ok (.normal v) w' := by
  have accepted : resolve leavingProgram = .ok .empty := rfl
  obtain ⟨hreturns, htop⟩ := (new default).top_level_never_returns accepted 20
  refine ⟨hreturns .walking 10 leavingLoop ⟨0⟩ default (.number 1) _ rfl, _, _, rfl, ?_⟩
  rcases htop (leavingProgram.take 1) leavingProgram[1] [] _ _ rfl rfl with normal | ⟨e, w', failed⟩
  · exact normal
  · cases failed

end Kiln
