/-
Module: Kiln.Proofs.Frames.Locals
Purpose: Locals that nothing captured are private to their call. The code of a function is executed in the scope
  that its call has opened and in blocks inside it, up to where it calls something. What is called works in
  other scopes, be it the same function again, and comes back to these variables as they were.
Main exports: Store.Inside, Task.Within, Task.Within.of_call, Interpreter.History.discreet,
  Interpreter.History.locals_are_private
-/
import Kiln.Proofs.Frames.Runs

namespace Kiln

open Evaluate

/-! ### The scopes of one call -/

/-- The way outward from the scope leads through blocks to the scope of a call. -/
inductive Store.Inside (s : Store) (activation : ScopeId) : ScopeId → Prop where
  | self : Inside s activation activation
  | block {scope outer : ScopeId} {body : List Stmt} (opened : s.origin? scope = some (.block body))
      (around : s.parent? scope = some outer) (h : Inside s activation outer) : Inside s activation scope

namespace Store.Inside

variable {s t : Store} {activation scope : ScopeId}

theorem mono (grows : s.Grows t) (h : s.Inside activation scope) : t.Inside activation scope := by
  induction h with
  | self => exact .self
  | block opened around _ ih => exact .block (grows.origin opened) (grows.parent around) ih

theorem isPrivate (h : s.Inside activation scope) (hprivate : s.Private 0 activation) :
    s.Private 0 scope := by
  induction h with
  | self => exact hprivate
  | block opened around _ ih => exact .block opened around ih (Nat.zero_le _)

/-- The scopes from this one out to that of the call, which are those of blocks but for the last. -/
theorem exists_hop? (h : s.Inside activation scope) : ∃ k, s.hop? scope k = some activation ∧
    ∀ j ≤ k, ∃ inner, s.hop? scope j = some inner ∧ s.Inside activation inner ∧
      (j < k → ∃ body, s.origin? inner = some (.block body)) := by
  induction h with
  | self =>
      refine ⟨0, rfl, fun j hj => ?_⟩
      cases Nat.le_zero.1 hj
      exact ⟨activation, rfl, .self, fun hlt => absurd hlt (Nat.lt_irrefl 0)⟩
  | @block scope outer body opened around h ih =>
      obtain ⟨k, hk, hway⟩ := ih
      refine ⟨k + 1, Option.bind_eq_some_iff.2 ⟨outer, around, hk⟩, fun j hj => ?_⟩
      cases j with
      | zero => exact ⟨scope, rfl, .block opened around h, fun _ => ⟨body, opened⟩⟩
      | succ j =>
          obtain ⟨inner, hhop, hinside, hblock⟩ := hway j (Nat.le_of_succ_le_succ hj)
          exact ⟨inner, Option.bind_eq_some_iff.2 ⟨outer, around, hhop⟩, hinside,
            fun hlt => hblock (Nat.lt_of_succ_lt_succ hlt)⟩

end Store.Inside

namespace Evaluate.Task

/-- A call, be it of a function or of a class. -/
def isCall : Task → Bool
  | .call _ _ | .callClosure _ _ => true
  | _ => false

/-- The scope in which the code of a task is executed. -/
def scope? : Task → Option ScopeId
  | .expr _ scope | .exprs _ scope | .operand _ _ scope | .condition _ scope => some scope
  | .stmt _ scope | .stmts _ scope | .loop _ _ scope => some scope
  | .call _ _ | .callClosure _ _ => none

/-- In the course of the first task the second one is begun, and there is no call after the first one. The
    numbers are the bounds of the two. -/
inductive Within (find : Finder) : Nat → Task → World → Nat → Task → World → Prop where
  | here {n : Nat} {t : Task} {w : World} : Within find n t w n t w
  | inside {n m : Nat} {t t' u : Task} {w w' v : World} (entered : Enters find n t w t' w')
      (code : t'.isCall = false) (h : Within find n t' w' m u v) : Within find (n + 1) t w m u v

variable {globals activation scope : ScopeId} {a : Annotations} {first n : Nat} {t t' : Task} {w w' : World}

/-- Code is executed in the scope of the code that it is a part of, or in a block inside it. -/
theorem Enters.inside {find : Finder} (h : Enters find n t w t' w') (code : t'.isCall = false)
    (grows : w.store.Grows w'.store) (hscope : t.scope? = some scope)
    (inside : w.store.Inside activation scope) :
    ∃ scope', t'.scope? = some scope' ∧ w'.store.Inside activation scope' := by
  have hsame : t'.scope? = some scope →
      ∃ scope', t'.scope? = some scope' ∧ w'.store.Inside activation scope' :=
    fun hscope' => ⟨scope, hscope', inside.mono grows⟩
  cases h with
  | call | closure | init => cases code
  | body => cases hscope
  | @block body _ inner _ _ opened =>
      cases hscope
      obtain ⟨_, horigin, around⟩ := Eval.eq_of_newScope opened
      exact ⟨inner, rfl, .block horigin around (inside.mono grows)⟩
  | _ => exact hsame hscope

/-- All code that is executed between two calls lies inside the scope of the first one. -/
theorem Within.inside_activation {m : Nat} {u : Task} {v : World}
    (h : Within (.lexical globals a) n t w m u v) (starts : Starts globals first t w)
    (hscope : t.scope? = some scope) (inside : w.store.Inside activation scope) :
    Starts globals first u v ∧ w.store.Grows v.store ∧
      ∃ scope', u.scope? = some scope' ∧ v.store.Inside activation scope' := by
  induction h generalizing scope with
  | here => exact ⟨starts, .refl _, scope, hscope, inside⟩
  | inside entered code _ ih =>
      obtain ⟨guarded, conforms⟩ := starts.hands_down (run_guards globals a first _) entered
      obtain ⟨scope', hscope', inside'⟩ := entered.inside code guarded.grows hscope inside
      obtain ⟨starts', grows, hlast⟩ := ih (starts.later guarded conforms) hscope' inside'
      exact ⟨starts', guarded.grows.trans grows, hlast⟩

/-- The code of a function is executed in the scope that its call has opened and in blocks inside it. -/
theorem Within.of_call {c : Closure} {args : List Value} {m : Nat} {e : Expr} {v : World}
    (h : Within (.lexical globals a) n (.callClosure c args) w m (.expr e scope) v)
    (starts : Starts globals first (.callClosure c args) w) :
    Starts globals first (.expr e scope) v ∧
      v.store.origin? ⟨w.store.scopes.size⟩ = some (.call c.function) ∧
      v.store.Inside ⟨w.store.scopes.size⟩ scope := by
  cases h with
  | inside entered _ h =>
      obtain ⟨guarded, conforms⟩ := starts.hands_down (run_guards globals a first _) entered
      have starts' := starts.later guarded conforms
      cases entered with
      | body arity opened done =>
          have hdefine := (arguments_guard starts opened).2.2
          obtain ⟨hgrows, -⟩ := hdefine.of_eq_ok done
          obtain ⟨rfl, hcall, _⟩ := Eval.eq_of_newScope opened
          have horigin := hgrows.grows.origin hcall
          obtain ⟨starts'', grows, scope', hscope', inside⟩ := h.inside_activation starts' rfl .self
          cases hscope'
          exact ⟨starts'', grows.origin horigin, inside⟩

end Evaluate.Task

/-! ### Sessions -/

namespace Interpreter

theorem discreet_new (sink : Sink) : (new sink).world.store.Discreet (new sink).globals where
  globals := .outside (origin?_new 1 (by decide))
  cells hv := by
    obtain ⟨_, _, ⟨_, rfl⟩ | rfl⟩ := cell?_new hv
    · trivial
    · trivial
  fields hv := by
    rw [Store.fields] at hv
    cases hv
  around {scope outer} hscope := by
    rw [parent?_new] at hscope
    split at hscope
    · cases hscope
      exact .inl (.outside (origin?_new 0 (by decide)))
    · cases hscope

variable {sink : Sink} {ps : List Program} {i : Interpreter} {p : Program} {a : Annotations}

/-- After any number of programs the store is discreet. -/
theorem History.discreet (h : History sink ps i) : i.world.store.Discreet i.globals := by
  induction h with
  | fresh => exact discreet_new sink
  | line before accepted fuel ih =>
      rw [run_eq_end]
      exact program_discreet ih

/-- In every session, locals that nothing captured are private to their call. While the code of a call is
    executed whose function has no function and no class in its body, the blocks around this code lie inside
    the scope that the call has opened; and an expression of it leaves all variables of this scope and of these
    blocks as they are, whatever it calls and also if it fails. -/
theorem History.locals_are_private (h : History sink ps i) {fuel n m : Nat} {c : Closure}
    {args : List Value} {w v : World}
    (called : ProgramReaches (i.learn a).finder fuel i.globals p i.world n (.callClosure c args) w)
    (flat : c.function.flat = true) {e : Expr} {scope : ScopeId}
    (evaluated : Task.Within (i.learn a).finder n (.callClosure c args) w m (.expr e scope) v) :
    ∃ d, v.store.hop? scope d = some ⟨w.store.scopes.size⟩ ∧
      v.store.origin? ⟨w.store.scopes.size⟩ = some (.call c.function) ∧
      ∀ j ≤ d, ∃ inner, v.store.hop? scope j = some inner ∧
        (j < d → ∃ body, v.store.origin? inner = some (.block body)) ∧
        ∀ name, (Eval.endWorld (expr (i.learn a).finder m e scope v)).store.cell? inner name =
          v.store.cell? inner name := by
  obtain ⟨starts, horigin, inside⟩ := evaluated.of_call (called.starts h.discreet)
  obtain ⟨d, hd, hway⟩ := inside.exists_hop?
  refine ⟨d, hd, horigin, fun j hj => ?_⟩
  obtain ⟨inner, hhop, hinner, hblock⟩ := hway j hj
  refine ⟨inner, hhop, hblock, fun name => ?_⟩
  have hprivate : v.store.Private 0 inner := hinner.isPrivate (.call horigin flat (Nat.zero_le _))
  -- at this point all scopes that there are count as old
  have hstart : Task.Starts i.globals v.store.scopes.size (.expr e scope) v :=
    ⟨starts.discreet, Nat.le_refl _, starts.conforms⟩
  have hguards := Task.run_guards i.globals (i.learn a).annotations _ m (.expr e scope) v hstart
  exact (guarded_of_guards hguards).frame hprivate.lt_size hprivate name

/-- A call of a function by itself, with a smaller number. -/
def recursiveCall : Expr := .call (.var "f" ⟨2⟩) [.binary .sub (.var "n" ⟨3⟩) (.number 1)]

/-- A function that keeps its argument in a variable while it calls itself in a block. -/
def keepingFunction : Function :=
  ⟨some "f", [⟨"n", none⟩], none,
    [.declare "k" (.var "n" ⟨0⟩),
      .ifElse (.binary .greater (.var "n" ⟨1⟩) (.number 0)) (.block [.expr recursiveCall]) none,
      .ret (some (.var "k" ⟨4⟩))]⟩

/-- The distances of the references in the function. -/
def keepingDistances : Annotations :=
  (((Annotations.empty.record ⟨0⟩ 0).record ⟨1⟩ 0).record ⟨3⟩ 1).record ⟨4⟩ 0

/-- The interpreter on which the function has been declared. -/
def afterKeeping : Interpreter := ((new default).run 5 [⟨0, .function keepingFunction⟩] keepingDistances).2

/-- The next line, which calls the function. -/
def keepingCall : Program := [⟨0, .expr (.call (.var "f" ⟨5⟩) [.number 1])⟩]

/-- The function as the call finds it. -/
def keepingClosure : Closure := ⟨⟨1⟩, keepingFunction, ⟨1⟩⟩

/-- The second call, which comes out of the block of the first one, has a variable `k` of its own. -/
theorem History.locals_are_private_of_recursion :
    ProgramReaches (afterKeeping.learn .empty).finder 20 afterKeeping.globals keepingCall afterKeeping.world 17
      (.callClosure keepingClosure [.number 1]) afterKeeping.world ∧
    ∃ v, Task.Within (afterKeeping.learn .empty).finder 17 (.callClosure keepingClosure [.number 1])
        afterKeeping.world 10 (.expr recursiveCall ⟨3⟩) v ∧
      v.store.cell? ⟨2⟩ "k" = some (.number 1) ∧
      (Eval.endWorld (expr (afterKeeping.learn .empty).finder 10 recursiveCall ⟨3⟩ v)).store.cell? ⟨2⟩ "k"
        = v.store.cell? ⟨2⟩ "k" := by
  have accepted : resolve [⟨0, .function keepingFunction⟩] = .ok keepingDistances := rfl
  have history : History default [[⟨0, .function keepingFunction⟩]] afterKeeping := .line .fresh accepted 5
  have called : ProgramReaches (afterKeeping.learn .empty).finder 20 afterKeeping.globals keepingCall
      afterKeeping.world 17 (.callClosure keepingClosure [.number 1]) afterKeeping.world :=
    .here (.inside .value (.inside (.call rfl rfl) (.inside .closure .here)))
  have reached : ∃ v, Task.Within (afterKeeping.learn .empty).finder 17
      (.callClosure keepingClosure [.number 1]) afterKeeping.world 10 (.expr recursiveCall ⟨3⟩) v ∧
      v.store.cell? ⟨2⟩ "k" = some (.number 1) := by
    apply Exists.intro
    constructor
    · apply Task.Within.inside (.body rfl rfl rfl) rfl
      apply Task.Within.inside (.tail rfl) rfl
      apply Task.Within.inside .head rfl
      apply Task.Within.inside (.thenBranch rfl) rfl
      exact .inside (.block rfl) rfl (.inside .head rfl (.inside .value rfl .here))
    · rfl
  obtain ⟨v, evaluated, hcell⟩ := reached
  obtain ⟨d, hd, _, hway⟩ := history.locals_are_private called rfl evaluated
  obtain ⟨inner, hinner, _, hsame⟩ := hway d (Nat.le_refl d)
  cases hd.symm.trans hinner
  exact ⟨called, v, evaluated, hcell, hsame "k"⟩

end Interpreter

end Kiln
