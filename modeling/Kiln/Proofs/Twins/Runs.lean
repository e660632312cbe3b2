/-
Module: Kiln.Proofs.Twins.Runs
Purpose: Programs that do the same run in the same way, whatever their functions are called for and wherever they
  are stored. An update is carried out at once, while the assignment that says the same first evaluates a sum; so
  a run with updates that ends within some bound corresponds to one with assignments within a slightly
  larger bound, and in the other direction the same bound is enough.
Main exports: RunsTwin, Side.extra, runs_twin, Program.Twin, Evaluate.program_twin
-/
import Kiln.Proofs.Evaluation.Visits
import Kiln.Proofs.Twins.Outcomes

namespace Kiln

open Eval

/-- A `return` does not run to its end. -/
theorem Evaluate.returns_of_ret {find : Finder} {n : Nat} {value : Option Expr} {scope : ScopeId}
    {w u : World} {c : Completion} (h : Evaluate.stmt find n (.ret value) scope w = .ok c u) :
    ∃ v, c = .returned v := by
  cases n with
  | zero => cases h
  | succ n =>
      cases value with
      | none =>
          cases h
          exact ⟨_, rfl⟩
      | some e =>
          simp only [Evaluate.stmt, Bind.bind, EStateM.bind] at h
          split at h
          · cases h
            exact ⟨_, rfl⟩
          · cases h

/-- What is to be shown of the bounds `n` and `m` of two runs. -/
structure RunsTwin (I : NodeId → NodeId → Prop) (lacking : Side) (find find' : Finder) (n m : Nat) :
    Prop where
  expr {e e' : Expr} {w w' : World} (h : e.Twin I e') (world : w.Twin I w') (scope : ScopeId) :
    Eval.Twin I lacking (Value.Twin I) (Evaluate.expr find n e scope w)
      (Evaluate.expr find' m e' scope w')
  exprs {es es' : List Expr} {w w' : World} (h : Expr.Twins I es es') (world : w.Twin I w')
    (scope : ScopeId) :
    Eval.Twin I lacking (List.Forall₂ (Value.Twin I)) (Evaluate.exprs find n es scope w)
      (Evaluate.exprs find' m es' scope w')
  operand {e e' : Expr} {w w' : World} (op : LogicalOp) (h : e.Twin I e') (world : w.Twin I w')
    (scope : ScopeId) :
    Eval.Twin I lacking (fun b b' => b' = b) (Evaluate.operand find n op e scope w)
      (Evaluate.operand find' m op e' scope w')
  condition {e e' : Expr} {w w' : World} (h : e.Twin I e') (world : w.Twin I w') (scope : ScopeId) :
    Eval.Twin I lacking (fun b b' => b' = b) (Evaluate.condition find n e scope w)
      (Evaluate.condition find' m e' scope w')
  call {v v' : Value} {vs vs' : List Value} {w w' : World} (h : v.Twin I v')
    (args : List.Forall₂ (Value.Twin I) vs vs') (world : w.Twin I w') :
    Eval.Twin I lacking (Value.Twin I) (Evaluate.call find n v vs w) (Evaluate.call find' m v' vs' w')
  callClosure {c c' : Closure} {vs vs' : List Value} {w w' : World}
    (h : Value.Twin I (.closure c) (.closure c')) (args : List.Forall₂ (Value.Twin I) vs vs')
    (world : w.Twin I w') :
    Eval.Twin I lacking (Value.Twin I) (Evaluate.callClosure find n c vs w)
      (Evaluate.callClosure find' m c' vs' w')
  stmt {s s' : Stmt} {w w' : World} (h : s.Twin I s') (world : w.Twin I w') (scope : ScopeId) :
    Eval.Twin I lacking (Completion.Twin I) (Evaluate.stmt find n s scope w)
      (Evaluate.stmt find' m s' scope w')
  change {s s' : Stmt} {w w' : World} (h : Stmt.Change I s s') (world : w.Twin I w')
    (scope : ScopeId) :
    Eval.Twin I lacking Completion.Change (Evaluate.stmt find n s scope w)
      (Evaluate.stmt find' m s' scope w')
  stmts {ss ss' : List Stmt} {w w' : World} (h : Stmt.Twins I ss ss') (world : w.Twin I w')
    (scope : ScopeId) :
    Eval.Twin I lacking (Completion.Twin I) (Evaluate.stmts find n ss scope w)
      (Evaluate.stmts find' m ss' scope w')
  loop {e e' : Expr} {s s' : Stmt} {w w' : World} (test : e.Twin I e') (body : s.Twin I s')
    (world : w.Twin I w') (scope : ScopeId) :
    Eval.Twin I lacking (Completion.Twin I) (Evaluate.loop find n e s scope w)
      (Evaluate.loop find' m e' s' scope w')

namespace RunsTwin

variable {I : NodeId → NodeId → Prop} {lacking : Side} {find find' : Finder} {n m : Nat} {w w' : World}

/-- Without fuel, nothing is said about the first run. -/
theorem zero_first (m : Nat) : RunsTwin I .first find find' 0 m where
  expr _ _ _ := .firstOut rfl _ _
  exprs _ _ _ := .firstOut rfl _ _
  operand _ _ _ _ := .firstOut rfl _ _
  condition _ _ _ := .firstOut rfl _ _
  call h _ _ := by cases h <;> exact .firstOut rfl _ _
  callClosure _ _ _ := .firstOut rfl _ _
  stmt _ _ _ := .firstOut rfl _ _
  change _ _ _ := .firstOut rfl _ _
  stmts _ _ _ := .firstOut rfl _ _
  loop _ _ _ _ := .firstOut rfl _ _

/-- Without fuel, nothing is said about the second run. -/
theorem zero_second (n : Nat) : RunsTwin I .second find find' n 0 where
  expr _ _ _ := .secondOut rfl _ _
  exprs _ _ _ := .secondOut rfl _ _
  operand _ _ _ _ := .secondOut rfl _ _
  condition _ _ _ := .secondOut rfl _ _
  call h _ _ := by cases h <;> exact .secondOut rfl _ _
  callClosure _ _ _ := .secondOut rfl _ _
  stmt _ _ _ := .secondOut rfl _ _
  change _ _ _ := .secondOut rfl _ _
  stmts _ _ _ := .secondOut rfl _ _
  loop _ _ _ _ := .secondOut rfl _ _

/-! ### Expressions -/

theorem expr_succ (found : Finder.Twin I find find') (ih : RunsTwin I lacking find find' n m)
    {e e' : Expr} (h : e.Twin I e') (world : w.Twin I w') (scope : ScopeId) :
    Eval.Twin I lacking (Value.Twin I) (Evaluate.expr find (n + 1) e scope w)
      (Evaluate.expr find' (m + 1) e' scope w') := by
  cases h with
  | number n => exact .ok world (.number n)
  | text s => exact .ok world (.text s)
  | bool b => exact .ok world (.bool b)
  | var name h => exact .read found world scope name h
  | this h => exact .read found world scope "this" h
  | binary op left right =>
      apply Eval.Twin.bind (ih.expr left world scope)
      intro v v' u u' world hv
      apply Eval.Twin.bind (ih.expr right world scope)
      intro x x' _ _ world hx
      exact .binary world op hv hx
  | logical op left right =>
      apply Eval.Twin.bind (ih.operand op left world scope)
      intro b b' u u' world hb
      subst hb
      cases hdecided : Evaluate.isDecided op b' with
      | true => exact .ok world (.bool b')
      | false =>
          apply Eval.Twin.bind (ih.operand op right world scope)
          intro x x' _ _ world hx
          subst hx
          exact .ok world (.bool x')
  | unary op operand =>
      apply Eval.Twin.bind (ih.expr operand world scope)
      intro v v' _ _ world hv
      exact .unary world op hv
  | member name object =>
      apply Eval.Twin.bind (ih.expr object world scope)
      intro v v' _ _ world hv
      exact .property world hv name
  | call callee args =>
      apply Eval.Twin.bind (ih.expr callee world scope)
      intro v v' u u' world hv
      apply Eval.Twin.bind (ih.exprs args world scope)
      intro vs vs' _ _ world hvs
      exact ih.call hv hvs world
  | lambda function =>
      apply Eval.Twin.bind (.newClosure world function scope)
      intro c c' _ _ world hc
      exact .ok world hc

theorem exprs_succ (ih : RunsTwin I lacking find find' n m) {es es' : List Expr}
    (h : Expr.Twins I es es') (world : w.Twin I w') (scope : ScopeId) :
    Eval.Twin I lacking (List.Forall₂ (Value.Twin I)) (Evaluate.exprs find (n + 1) es scope w)
      (Evaluate.exprs find' (m + 1) es' scope w') := by
  cases h with
  | nil => exact .ok world .nil
  | cons head tail =>
      apply Eval.Twin.bind (ih.expr head world scope)
      intro v v' u u' world hv
      apply Eval.Twin.bind (ih.exprs tail world scope)
      intro vs vs' _ _ world hvs
      exact .ok world (.cons hv hvs)

theorem operand_succ (ih : RunsTwin I lacking find find' n m) {e e' : Expr} (op : LogicalOp)
    (h : e.Twin I e') (world : w.Twin I w') (scope : ScopeId) :
    Eval.Twin I lacking (fun b b' => b' = b) (Evaluate.operand find (n + 1) op e scope w)
      (Evaluate.operand find' (m + 1) op e' scope w') := by
  apply Eval.Twin.bind (ih.expr h world scope)
  intro v v' _ _ world hv
  cases hv with
  | bool b => exact .ok world rfl
  | _ => exact .fail world _

theorem condition_succ (ih : RunsTwin I lacking find find' n m) {e e' : Expr}
    (h : e.Twin I e') (world : w.Twin I w') (scope : ScopeId) :
    Eval.Twin I lacking (fun b b' => b' = b) (Evaluate.condition find (n + 1) e scope w)
      (Evaluate.condition find' (m + 1) e' scope w') := by
  apply Eval.Twin.bind (ih.expr h world scope)
  intro v v' _ _ world hv
  cases hv with
  | bool b => exact .ok world rfl
  | _ => exact .fail world _

/-! ### Calls -/

theorem call_succ (ih : RunsTwin I lacking find find' n m) {v v' : Value} {vs vs' : List Value}
    (h : v.Twin I v') (args : List.Forall₂ (Value.Twin I) vs vs') (world : w.Twin I w') :
    Eval.Twin I lacking (Value.Twin I) (Evaluate.call find (n + 1) v vs w)
      (Evaluate.call find' (m + 1) v' vs' w') := by
  cases h with
  | closure identity scope hf => exact ih.callClosure (.closure identity scope hf) args world
  | builtin f identity => exact .callBuiltin world f args
  | @classValue c c' hclass =>
      apply Eval.Twin.bind (.newObject world)
      intro object object' u u' world hobject
      subst hobject
      have hreceiver := Value.Twin.object hclass object'
      have hmethod := hclass.methods "init"
      simp only
      revert hmethod
      generalize c.methods["init"]? = method
      generalize c'.methods["init"]? = method'
      intro hmethod
      cases hmethod with
      | none =>
          have hempty : vs'.isEmpty = vs.isEmpty := by
            cases args with
            | nil => rfl
            | cons _ _ => rfl
          simp only [hempty, hclass.name, ← args.length_eq]
          split
          · exact .ok world hreceiver
          · exact .fail world _
      | some hf =>
          apply Eval.Twin.bind (.bindMethod world hclass.scope hf hreceiver)
          intro bound bound' _ _ world hbound
          apply Eval.Twin.bind (ih.callClosure hbound args world)
          intro _ _ _ _ world _
          exact .ok world hreceiver
  | _ => exact .fail world _

theorem callClosure_succ (ih : RunsTwin I lacking find find' n m) {c c' : Closure}
    {vs vs' : List Value} (h : Value.Twin I (.closure c) (.closure c'))
    (args : List.Forall₂ (Value.Twin I) vs vs') (world : w.Twin I w') :
    Eval.Twin I lacking (Value.Twin I) (Evaluate.callClosure find (n + 1) c vs w)
      (Evaluate.callClosure find' (m + 1) c' vs' w') := by
  cases h with
  | @closure identity outer f f' hf =>
      simp only [Evaluate.callClosure, hf.paramNames_eq, hf.displayName_eq, ← args.length_eq]
      split
      · exact .fail world _
      · apply Eval.Twin.bind (.newScope world (.call f) (.call f') outer)
        intro scope scope' u u' world hscope
        subst hscope
        apply Eval.Twin.bind (.defineAll world scope' f.paramNames args)
        intro _ _ _ _ world _
        apply Eval.Twin.bind (ih.stmts hf.body world scope')
        intro completion completion' _ _ world hcompletion
        cases hcompletion with
        | normal _ => exact .ok world .void
        | returned hv => exact .ok world hv

/-! ### Statements -/

theorem stmt_succ (found : Finder.Twin I find find') (ih : RunsTwin I lacking find find' n m)
    {s s' : Stmt} (h : s.Twin I s') (world : w.Twin I w') (scope : ScopeId) :
    Eval.Twin I lacking (Completion.Twin I) (Evaluate.stmt find (n + 1) s scope w)
      (Evaluate.stmt find' (m + 1) s' scope w') := by
  cases h with
  | expr value =>
      apply Eval.Twin.bind (ih.expr value world scope)
      intro v v' _ _ world hv
      exact .ok world (.normal hv)
  | declare name value =>
      apply Eval.Twin.bind (ih.expr value world scope)
      intro v v' _ _ world hv
      apply Eval.Twin.bind (.define world scope name hv)
      intro _ _ _ _ world _
      exact .ok world (.normal hv)
  | assign target value =>
      apply Eval.Twin.bind (ih.expr value world scope)
      intro v v' _ _ world hv
      apply Eval.Twin.bind (.write found world scope target hv)
      intro _ _ _ _ world _
      exact .ok world (.normal hv)
  | @update v v' op target =>
      simp only [Evaluate.stmt, target.name]
      apply Eval.Twin.bind (.read found world scope v.name target.id)
      intro old old' _ _ world hold
      apply Eval.Twin.bind (.binary world op.binary hold (.number 1))
      intro new new' _ _ world hnew
      apply Eval.Twin.bind (.write found world scope target hnew)
      intro _ _ _ _ world _
      exact .ok world (.normal .void)
  | setMember name object value =>
      apply Eval.Twin.bind (ih.expr object world scope)
      intro v v' _ _ world hv
      cases hv with
      | object hclass id =>
          apply Eval.Twin.bind (ih.expr value world scope)
          intro v v' _ _ world hv
          apply Eval.Twin.bind (.setField world id name hv)
          intro _ _ _ _ world _
          exact .ok world (.normal .void)
      | _ => exact .fail world _
  | @block ss ss' body =>
      apply Eval.Twin.bind (.newScope world (.block ss) (.block ss') scope)
      intro inner inner' _ _ world hinner
      subst hinner
      exact ih.stmts body world inner'
  | ifThen test thenBranch =>
      apply Eval.Twin.bind (ih.condition test world scope)
      intro b b' _ _ world hb
      subst hb
      cases b' with
      | true => exact ih.stmt thenBranch world scope
      | false => exact .ok world (.normal .void)
  | ifElse test thenBranch elseBranch =>
      apply Eval.Twin.bind (ih.condition test world scope)
      intro b b' _ _ world hb
      subst hb
      cases b' with
      | true => exact ih.stmt thenBranch world scope
      | false => exact ih.stmt elseBranch world scope
  | whileLoop test body => exact ih.loop test body world scope
  | function function =>
      apply Eval.Twin.bind (.newClosure world function scope)
      intro c c' _ _ world hc
      rw [function.displayName_eq]
      apply Eval.Twin.bind (.define world scope _ hc)
      intro _ _ _ _ world _
      exact .ok world (.normal .void)
  | ret => exact .ok world (.returned .void)
  | retValue value =>
      apply Eval.Twin.bind (ih.expr value world scope)
      intro v v' _ _ world hv
      exact .ok world (.returned hv)
  | classDecl name methods =>
      apply Eval.Twin.bind (.define world scope name .void)
      intro _ _ _ _ world _
      apply Eval.Twin.bind (.newIdentity world)
      intro identity identity' _ _ world hidentity
      subst hidentity
      apply Eval.Twin.bind (.define world scope name
        (.classValue (.ofFunctions identity' name methods scope)))
      intro _ _ _ _ world _
      exact .ok world (.normal .void)

/-- An update is carried out at once. The assignment that says the same evaluates a sum before, which takes two
    more units of fuel. -/
theorem change_succ (found : Finder.Twin I find find') (enough : lacking = .first → 2 ≤ m)
    {s s' : Stmt} (h : Stmt.Change I s s') (world : w.Twin I w') (scope : ScopeId) :
    Eval.Twin I lacking Completion.Change (Evaluate.stmt find (n + 1) s scope w)
      (Evaluate.stmt find' (m + 1) s' scope w') := by
  have hshort : m < 2 → lacking = .second := by
    intro hm
    cases lacking with
    | first => exact absurd (enough rfl) (Nat.not_le_of_lt hm)
    | second => rfl
  cases h with
  | @mk target target' read op written added =>
      match m with
      | 0 => exact .secondOut (hshort (by decide)) _ w'
      | 1 => exact .secondOut (hshort (by decide)) _ w'
      | m + 2 =>
          simp only [Evaluate.stmt, Evaluate.expr, bind_assoc, pure_bind]
          apply Eval.Twin.bind (.read found world scope target.name added)
          intro old old' u u' world hold
          rw [hold.binary_eq op.binary (.number 1)]
          cases hnew : Operators.binary op.binary old (.number 1) with
          | error cause => exact .fail world cause
          | ok new =>
              obtain ⟨k, rfl⟩ := Operators.exists_number_of_update hnew
              apply Eval.Twin.bind (.write found world scope written (.number k))
              intro _ _ _ _ world _
              exact .ok world (.mk k)

theorem stmts_succ (ih : RunsTwin I lacking find find' n m) {ss ss' : List Stmt}
    (h : Stmt.Twins I ss ss') (world : w.Twin I w') (scope : ScopeId) :
    Eval.Twin I lacking (Completion.Twin I) (Evaluate.stmts find (n + 1) ss scope w)
      (Evaluate.stmts find' (m + 1) ss' scope w') := by
  cases h with
  | nil => exact .ok world (.normal .void)
  | cons head tail =>
      apply Eval.Twin.bind (ih.stmt head world scope)
      intro c c' _ _ world hc
      cases hc with
      | normal _ => exact ih.stmts tail world scope
      | returned hv => exact .ok world (.returned hv)
  | change head tail =>
      apply Eval.Twin.bind (ih.change head world scope)
      intro c c' _ _ world hc
      cases hc with
      | mk k => exact ih.stmts tail world scope
  | cut head dead dead' =>
      -- the statements after a `return` are not reached
      apply Eval.Twin.bind ((ih.stmt head world scope).and_of_ok fun _ _ => Evaluate.returns_of_ret)
      intro c c' _ _ world hc
      obtain ⟨hc, v, rfl⟩ := hc
      cases hc with
      | returned hv => exact .ok world (.returned hv)

theorem loop_succ (ih : RunsTwin I lacking find find' n m) {e e' : Expr} {s s' : Stmt}
    (test : e.Twin I e') (body : s.Twin I s') (world : w.Twin I w') (scope : ScopeId) :
    Eval.Twin I lacking (Completion.Twin I) (Evaluate.loop find (n + 1) e s scope w)
      (Evaluate.loop find' (m + 1) e' s' scope w') := by
  apply Eval.Twin.bind (ih.condition test world scope)
  intro b b' _ _ world hb
  subst hb
  cases b' with
  | false => exact .ok world (.normal .void)
  | true =>
      apply Eval.Twin.bind (ih.stmt body world scope)
      intro c c' _ _ world hc
      cases hc with
      | normal _ => exact ih.loop test body world scope
      | returned hv => exact .ok world (.returned hv)

/-- One more unit of fuel on both sides. -/
theorem succ (found : Finder.Twin I find find') (enough : lacking = .first → 2 ≤ m)
    (ih : RunsTwin I lacking find find' n m) : RunsTwin I lacking find find' (n + 1) (m + 1) where
  expr := ih.expr_succ found
  exprs := ih.exprs_succ
  operand := ih.operand_succ
  condition := ih.condition_succ
  call := ih.call_succ
  callClosure := ih.callClosure_succ
  stmt := ih.stmt_succ found
  change := change_succ found enough
  stmts := ih.stmts_succ
  loop := ih.loop_succ

end RunsTwin

/-- How much more fuel the second run has. -/
def Side.extra : Side → Nat
  | .first => 2
  | .second => 0

/-- Programs that do the same run in the same way, if the second one has enough fuel for its assignments or may run
    out of it. -/
theorem runs_twin {I : NodeId → NodeId → Prop} {find find' : Finder}
    (found : Finder.Twin I find find') (lacking : Side) (n : Nat) :
    RunsTwin I lacking find find' n (n + lacking.extra) := by
  induction n with
  | zero =>
      cases lacking with
      | first => exact .zero_first _
      | second => exact .zero_second _
  | succ n ih =>
      rw [Nat.succ_add]
      apply RunsTwin.succ found _ ih
      rintro rfl
      exact Nat.le_add_left 2 n

end Kiln
