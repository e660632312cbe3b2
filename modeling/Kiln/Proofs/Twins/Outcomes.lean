/-
Module: Kiln.Proofs.Twins.Outcomes
Purpose: Outcomes of the same step in two programs that do the same. Both give twins in worlds that are twins, or
  both fail for the same cause. One of the two runs may have less fuel than it needs; nothing is said where it
  runs out. The steps from which evaluation is built have such outcomes, and outcomes of steps one after the
  other compose.
Main exports: World.Twin, RuntimeError.Twin, Completion.Twin, Side, Eval.Twin, Eval.Twin.bind,
  Eval.Twin.read, Eval.Twin.write, Eval.Twin.define, Eval.Twin.property, Eval.Twin.callBuiltin
-/
import Mathlib.Data.List.Forall2
import Kiln.Proofs.Evaluation.Operands
import Kiln.Proofs.Evaluation.Safe
import Kiln.Proofs.Twins.Stores

namespace Kiln

open Eval

section Relations

variable (I : NodeId → NodeId → Prop)

/-- Worlds of two programs that do the same: what they have printed is the same, too. -/
structure World.Twin (w w' : World) : Prop where
  store : w.store.Twin I w'.store
  sink_eq : w'.sink = w.sink

/-- The same cause, but a missing variable may have been referred to under a linked id. -/
inductive RuntimeError.Twin : RuntimeError → RuntimeError → Prop where
  | same (cause : RuntimeError) : RuntimeError.Twin cause cause
  | missed (name : String) {i j : NodeId} (h : I i j) :
      RuntimeError.Twin (.undefinedVariable name i) (.undefinedVariable name j)

/-- The same completion, with values that are twins. -/
inductive Completion.Twin : Completion → Completion → Prop where
  | normal {v v' : Value} (h : v.Twin I v') : Completion.Twin (.normal v) (.normal v')
  | returned {v v' : Value} (h : v.Twin I v') : Completion.Twin (.returned v) (.returned v')

/-- How an update and the assignment that says the same complete: the update gives nothing, the assignment gives
    the number that it assigns. -/
inductive Completion.Change : Completion → Completion → Prop where
  | mk (n : Int64) : Completion.Change (.normal .void) (.normal (.number n))

/-- One of two runs. -/
inductive Side where
  | first
  | second
deriving DecidableEq

/-- Outcomes of two runs, of which one may lack fuel. -/
inductive Eval.Twin (lacking : Side) {α β : Type} (R : α → β → Prop) :
    EStateM.Result Halt World α → EStateM.Result Halt World β → Prop where
  | value {x : α} {x' : β} {w w' : World} (world : w.Twin I w') (h : R x x') :
      Eval.Twin lacking R (.ok x w) (.ok x' w')
  | failed {cause cause' : RuntimeError} {w w' : World} (world : w.Twin I w')
      (h : cause.Twin I cause') :
      Eval.Twin lacking R (.error (.failed cause) w) (.error (.failed cause') w')
  | firstOut (h : lacking = .first) (w : World) (r' : EStateM.Result Halt World β) :
      Eval.Twin lacking R (.error .outOfFuel w) r'
  | secondOut (h : lacking = .second) (r : EStateM.Result Halt World α) (w' : World) :
      Eval.Twin lacking R r (.error .outOfFuel w')

end Relations

variable {I : NodeId → NodeId → Prop}

/-- Worlds whose stores have become other twins. -/
theorem World.Twin.withStore {w w' : World} (world : w.Twin I w') {s s' : Store} (h : s.Twin I s') :
    World.Twin I { w with store := s } { w' with store := s' } :=
  ⟨h, world.sink_eq⟩

theorem Completion.Twin.value {c c' : Completion} (h : c.Twin I c') : c.value.Twin I c'.value := by
  cases h with
  | normal h => exact h
  | returned h => exact h

/-! ### Operators -/

namespace Value.Twin

variable {v v' u u' : Value}

/-- Operators see nothing of values but what twins have in common. -/
theorem looks (hv : v.Twin I v') : v.Looks v' := by
  refine ⟨hv.kind_eq, ?_, ?_, ?_⟩ <;> cases hv <;> simp

theorem binary_eq (op : BinaryOp) (hv : v.Twin I v') (hu : u.Twin I u') :
    Operators.binary op v' u' = Operators.binary op v u :=
  Operators.binary_eq_of_looks op hv.looks hu.looks (hv.same_eq hu)

theorem of_isPlain (h : v.isPlain = true) : v.Twin I v := by
  cases v with
  | number n => exact .number n
  | text s => exact .text s
  | bool b => exact .bool b
  | _ => cases h

end Value.Twin

/-! ### Steps -/

namespace Eval.Twin

variable {lacking : Side} {α β γ δ : Type} {R : α → β → Prop} {S : γ → δ → Prop} {w w' : World}
  {v v' : Value}

theorem ok (world : w.Twin I w') {x : α} {x' : β} (h : R x x') :
    Eval.Twin I lacking R (.ok x w) (.ok x' w') :=
  .value world h

theorem fail (world : w.Twin I w') (cause : RuntimeError) :
    Eval.Twin I lacking R (Eval.fail cause w) (Eval.fail cause w') :=
  .failed world (.same cause)

theorem bind {p : Eval α} {p' : Eval β} {f : α → Eval γ} {f' : β → Eval δ}
    (h : Eval.Twin I lacking R (p w) (p' w'))
    (hf : ∀ x x' u u', u.Twin I u' → R x x' → Eval.Twin I lacking S (f x u) (f' x' u')) :
    Eval.Twin I lacking S ((p >>= f) w) ((p' >>= f') w') := by
  simp only [Bind.bind, EStateM.bind]
  revert h
  generalize p w = r
  generalize p' w' = r'
  intro h
  cases h with
  | value world hR => exact hf _ _ _ _ world hR
  | failed world h => exact .failed world h
  | firstOut h u r' => exact .firstOut h u _
  | secondOut h r u' => exact .secondOut h _ u'

/-- What is known of the value of the first run can be noted. -/
theorem and_of_ok {P : α → Prop} {p : Eval α} {r' : EStateM.Result Halt World β}
    (h : Eval.Twin I lacking R (p w) r') (hp : ∀ x u, p w = .ok x u → P x) :
    Eval.Twin I lacking (fun x x' => R x x' ∧ P x) (p w) r' := by
  revert hp
  generalize p w = r at h
  intro hp
  cases h with
  | value world hR => exact .value world ⟨hR, hp _ _ rfl⟩
  | failed world h => exact .failed world h
  | firstOut h u r' => exact .firstOut h u r'
  | secondOut h r u' => exact .secondOut h _ u'

/-! #### Variables -/

theorem read {find find' : Finder} (found : Finder.Twin I find find') (world : w.Twin I w')
    (scope : ScopeId) (name : String) {i j : NodeId} (h : I i j) :
    Eval.Twin I lacking (Value.Twin I) (Eval.read find scope name i w)
      (Eval.read find' scope name j w') := by
  unfold Eval.read
  rw [found world.store h scope name]
  cases find w.store scope name i with
  | none => exact .failed world (.missed name h)
  | some target =>
      have hcell := world.store.cells target name
      simp only [Option.bind_some]
      revert hcell
      generalize w.store.cell? target name = x
      generalize w'.store.cell? target name = x'
      intro hcell
      cases hcell with
      | some hv => exact .ok world hv
      | none => exact .failed world (.missed name h)

theorem write {find find' : Finder} (found : Finder.Twin I find find') (world : w.Twin I w')
    (scope : ScopeId) {target target' : Variable} (h : target.Twin I target') (hv : v.Twin I v') :
    Eval.Twin I lacking (fun _ _ => True) (Eval.write find scope target v w)
      (Eval.write find' scope target' v' w') := by
  unfold Eval.write
  rw [h.name, found world.store h.id scope target.name]
  cases find w.store scope target.name target.id with
  | none => exact .failed world (.missed target.name h.id)
  | some owner => exact .ok (world.withStore (world.store.put owner target.name hv)) trivial

theorem define (world : w.Twin I w') (scope : ScopeId) (name : String) (hv : v.Twin I v') :
    Eval.Twin I lacking (fun _ _ => True) (Eval.define scope name v w)
      (Eval.define scope name v' w') :=
  .ok (world.withStore (world.store.put scope name hv)) trivial

theorem defineAll (world : w.Twin I w') (scope : ScopeId) (names : List String) {vs vs' : List Value}
    (hvs : List.Forall₂ (Value.Twin I) vs vs') :
    Eval.Twin I lacking (fun _ _ => True) (Eval.defineAll scope (names.zip vs) w)
      (Eval.defineAll scope (names.zip vs') w') := by
  induction names generalizing w w' vs vs' with
  | nil => exact .ok world trivial
  | cons name rest ih =>
      cases hvs with
      | nil => exact .ok world trivial
      | cons hv hvs =>
          apply Eval.Twin.bind (.define world scope name hv)
          intro _ _ u u' world _
          exact ih world hvs

/-! #### Scopes, objects and functions -/

theorem newScope (world : w.Twin I w') (origin origin' : Origin) (outer : ScopeId) :
    Eval.Twin I lacking (fun scope scope' => scope' = scope) (Eval.newScope origin outer w)
      (Eval.newScope origin' outer w') := by
  obtain ⟨hnew, hstore⟩ := world.store.newScope origin origin' (some outer)
  exact .ok (world.withStore hstore) hnew

theorem newObject (world : w.Twin I w') :
    Eval.Twin I lacking (fun object object' => object' = object) (Eval.newObject w)
      (Eval.newObject w') := by
  obtain ⟨hnew, hstore⟩ := world.store.newObject
  exact .ok (world.withStore hstore) hnew

theorem setField (world : w.Twin I w') (object : ObjectId) (name : String) (hv : v.Twin I v') :
    Eval.Twin I lacking (fun _ _ => True) (Eval.setField object name v w)
      (Eval.setField object name v' w') :=
  .ok (world.withStore (world.store.setField object name hv)) trivial

theorem newIdentity (world : w.Twin I w') :
    Eval.Twin I lacking (fun identity identity' => identity' = identity) (Eval.newIdentity w)
      (Eval.newIdentity w') := by
  obtain ⟨hnew, hstore⟩ := world.store.newIdentity
  exact .ok (world.withStore hstore) hnew

theorem newClosure (world : w.Twin I w') {f f' : Function} (hf : f.Twin I f') (scope : ScopeId) :
    Eval.Twin I lacking (fun c c' => Value.Twin I (.closure c) (.closure c'))
      (Eval.newClosure f scope w) (Eval.newClosure f' scope w') := by
  apply Eval.Twin.bind (.newIdentity world)
  intro identity identity' u u' world hidentity
  subst hidentity
  exact .ok world (.closure identity' scope hf)

/-- A method that is bound to its receiver. -/
theorem bindMethod (world : w.Twin I w') {c c' : Class} (hscope : c'.scope = c.scope) {f f' : Function}
    (hf : f.Twin I f') (hv : v.Twin I v') :
    Eval.Twin I lacking (fun c c' => Value.Twin I (.closure c) (.closure c')) (Eval.bind c f v w)
      (Eval.bind c' f' v' w') := by
  unfold Eval.bind
  rw [hscope]
  apply Eval.Twin.bind (.newScope world (.binding f) (.binding f') c.scope)
  intro scope scope' u u' world hnew
  subst hnew
  apply Eval.Twin.bind (.define world scope' "this" hv)
  intro _ _ u u' world _
  exact .newClosure world hf scope'

/-- Twins have the same fields and methods. -/
theorem property (world : w.Twin I w') (hv : v.Twin I v') (name : String) :
    Eval.Twin I lacking (Value.Twin I) (Eval.property v name w) (Eval.property v' name w') := by
  have hreceiver := hv
  cases hv with
  | @object c c' hclass id =>
      rw [Eval.property, Eval.property, Eval.get_bind, Eval.get_bind]
      have hfield := world.store.fields id name
      have hmethod := hclass.methods name
      revert hfield hmethod
      generalize (w.store.fields id)[name]? = x
      generalize (w'.store.fields id)[name]? = x'
      generalize c.methods[name]? = m
      generalize c'.methods[name]? = m'
      intro hfield hmethod
      cases hfield with
      | some hvalue => exact .ok world hvalue
      | none =>
          cases hmethod with
          | none => exact .fail world _
          | some hf =>
              apply Eval.Twin.bind (.bindMethod world hclass.scope hf hreceiver)
              intro bound bound' u u' world hbound
              exact .ok world hbound
  | _ => exact .fail world _

/-! #### Output and operators -/

theorem emit (world : w.Twin I w') (function text : String) :
    Eval.Twin I lacking (fun _ _ => True) (Eval.emit function text w) (Eval.emit function text w') := by
  simp only [Eval.emit, world.sink_eq]
  split
  · exact .value ⟨world.store, rfl⟩ trivial
  · exact .failed ⟨world.store, rfl⟩ (.same _)

theorem callBuiltin (world : w.Twin I w') (f : Builtin) {vs vs' : List Value}
    (hvs : List.Forall₂ (Value.Twin I) vs vs') :
    Eval.Twin I lacking (Value.Twin I) (Eval.callBuiltin f vs w) (Eval.callBuiltin f vs' w') := by
  cases f with
  | print =>
      have hdisplay : vs'.map Value.display = vs.map Value.display := by
        induction hvs with
        | nil => rfl
        | cons hv _ ih => rw [List.map_cons, List.map_cons, hv.display_eq, ih]
      simp only [Eval.callBuiltin, hdisplay]
      apply Eval.Twin.bind (.emit world _ _)
      intro _ _ u u' world _
      exact .ok world .void

theorem ofExcept {r r' : Except RuntimeError Value} (world : w.Twin I w') (h : r' = r)
    (hr : ∀ v, r = .ok v → v.Twin I v) :
    Eval.Twin I lacking (Value.Twin I) (Eval.ofExcept r w) (Eval.ofExcept r' w') := by
  subst h
  cases r' with
  | ok v => exact .ok world (hr v rfl)
  | error cause => exact .fail world cause

theorem binary (world : w.Twin I w') (op : BinaryOp) {u u' : Value} (hv : v.Twin I v')
    (hu : u.Twin I u') :
    Eval.Twin I lacking (Value.Twin I) (Eval.ofExcept (Operators.binary op v u) w)
      (Eval.ofExcept (Operators.binary op v' u') w') :=
  .ofExcept world (hv.binary_eq op hu) fun _ h => .of_isPlain (Operators.isPlain_of_binary h)

theorem unary (world : w.Twin I w') (op : UnaryOp) (hv : v.Twin I v') :
    Eval.Twin I lacking (Value.Twin I) (Eval.ofExcept (Operators.unary op v) w)
      (Eval.ofExcept (Operators.unary op v') w') :=
  .ofExcept world (Operators.unary_eq_of_looks op hv.looks) fun _ h =>
    .of_isPlain (Operators.isPlain_of_unary h)

end Eval.Twin

end Kiln
