/-
Module: Kiln.Proofs.Renaming.Outcomes
Purpose: Outcomes of a step of evaluation and of the same step in the renamed program. Both give values that
  are alike in worlds that are alike, or both fail with the same output and the same cause, up to the name of
  a missing variable. The steps from which evaluation is built have such outcomes, and outcomes of steps
  one after the other compose.
Main exports: HaltAlike, WorldAlike, Alike, Alike.bind, Alike.read, Alike.write, Alike.define,
  Alike.defineAll, Alike.newScope, Alike.bindMethod, Alike.property
-/
import Mathlib.Data.List.Forall2
import Kiln.Proofs.Evaluation.Operands
import Kiln.Proofs.Evaluation.Safe
import Kiln.Proofs.Renaming.Stores

namespace Kiln

open Eval

/-- Causes that are the same, up to the name of a missing variable. -/
inductive HaltAlike : Halt → Halt → Prop where
  | same (halt : Halt) : HaltAlike halt halt
  | missed (name name' : String) (id : NodeId) :
      HaltAlike (.failed (.undefinedVariable name id)) (.failed (.undefinedVariable name' id))

/-- Worlds of two runs, of which the second is that of the renamed program. The globals lie outside of the
    scope of the renaming. -/
structure WorldAlike (ρ : String → String) (a : Annotations) (globals : ScopeId) (γ : Layout)
    (w w' : World) : Prop where
  store : StoreAlike ρ a γ w.store w'.store
  globals_at : γ.At globals none
  sink_eq : w'.sink = w.sink

/-- Outcomes of two steps that began in worlds with the layout `γ`. -/
inductive Alike {α : Type} (ρ : String → String) (a : Annotations) (globals : ScopeId) (γ : Layout)
    (R : Layout → α → α → Prop) :
    EStateM.Result Halt World α → EStateM.Result Halt World α → Prop where
  | value {δ : Layout} {x x' : α} {w w' : World} (grows : γ <+: δ)
      (world : WorldAlike ρ a globals δ w w') (h : R δ x x') :
      Alike ρ a globals γ R (.ok x w) (.ok x' w')
  | halt {e e' : Halt} {w w' : World} (h : HaltAlike e e') (sink_eq : w'.sink = w.sink) :
      Alike ρ a globals γ R (.error e w) (.error e' w')

/-- Completions with values that are alike. -/
inductive CompletionAlike (ρ : String → String) (a : Annotations) (γ : Layout) :
    Completion → Completion → Prop where
  | normal {v v' : Value} (h : ValueAlike ρ a γ v v') : CompletionAlike ρ a γ (.normal v) (.normal v')
  | returned {v v' : Value} (h : ValueAlike ρ a γ v v') :
      CompletionAlike ρ a γ (.returned v) (.returned v')

/-- Worlds whose stores have changed alike. -/
theorem WorldAlike.withStore {ρ : String → String} {a : Annotations} {globals : ScopeId} {γ δ : Layout}
    {w w' : World} (world : WorldAlike ρ a globals γ w w') (grows : γ <+: δ) {s s' : Store}
    (h : StoreAlike ρ a δ s s') :
    WorldAlike ρ a globals δ { w with store := s } { w' with store := s' } :=
  ⟨h, world.globals_at.mono grows, world.sink_eq⟩

theorem CompletionAlike.value {ρ : String → String} {a : Annotations} {γ : Layout} {c c' : Completion}
    (h : CompletionAlike ρ a γ c c') : ValueAlike ρ a γ c.value c'.value := by
  cases h with
  | normal h => exact h
  | returned h => exact h

/-- Lists of values that are alike. -/
abbrev ValuesAlike (ρ : String → String) (a : Annotations) (γ : Layout) : List Value → List Value → Prop :=
  List.Forall₂ (ValueAlike ρ a γ)

theorem ValuesAlike.mono {ρ : String → String} {a : Annotations} {γ δ : Layout} {vs vs' : List Value}
    (grows : γ <+: δ) (h : ValuesAlike ρ a γ vs vs') : ValuesAlike ρ a δ vs vs' :=
  h.imp fun _ _ hv => hv.mono grows

theorem ValuesAlike.map_eq {ρ : String → String} {a : Annotations} {γ : Layout} {vs vs' : List Value}
    (h : ValuesAlike ρ a γ vs vs') {text : Value → String}
    (hshow : ∀ v v', ValueAlike ρ a γ v v' → text v' = text v) : vs'.map text = vs.map text := by
  induction h with
  | nil => rfl
  | cons hv _ ih => rw [List.map_cons, List.map_cons, hshow _ _ hv, ih]

/-! ### Operators -/

namespace ValueAlike

variable {ρ : String → String} {a : Annotations} {γ : Layout} {v v' : Value}

/-- Operators see nothing of values but what is alike. -/
theorem looks (hv : ValueAlike ρ a γ v v') : v.Looks v' := by
  refine ⟨hv.kind_eq, ?_, ?_, ?_⟩ <;> cases hv <;> simp

theorem of_isPlain (h : v.isPlain = true) : ValueAlike ρ a γ v v := by
  cases v with
  | number n => exact .number n
  | text s => exact .text s
  | bool b => exact .bool b
  | _ => cases h

end ValueAlike

namespace Alike

variable {ρ : String → String} {a : Annotations} {globals scope : ScopeId} {γ δ : Layout}
  {w w' : World} {α β : Type} {R : Layout → α → α → Prop} {S : Layout → β → β → Prop} {d : Option Nat}

theorem ok (world : WorldAlike ρ a globals γ w w') {x x' : α} (h : R γ x x') :
    Alike ρ a globals γ R (.ok x w) (.ok x' w') :=
  .value (List.prefix_refl γ) world h

theorem fail (world : WorldAlike ρ a globals γ w w') (cause : RuntimeError) :
    Alike ρ a globals γ R (Eval.fail cause w) (Eval.fail cause w') :=
  .halt (.same _) world.sink_eq

theorem outOfFuel (world : WorldAlike ρ a globals γ w w') :
    Alike ρ a globals γ R (.error .outOfFuel w) (.error .outOfFuel w') :=
  .halt (.same _) world.sink_eq

/-- Outcomes of steps that began with a layout which had grown before. -/
theorem after {r r' : EStateM.Result Halt World α} (grows : γ <+: δ) (h : Alike ρ a globals δ R r r') :
    Alike ρ a globals γ R r r' := by
  cases h with
  | value grows' world hR => exact .value (grows.trans grows') world hR
  | halt h sink_eq => exact .halt h sink_eq

theorem bind {p p' : Eval α} {f f' : α → Eval β} (h : Alike ρ a globals γ R (p w) (p' w'))
    (hf : ∀ δ x x' u u', γ <+: δ → WorldAlike ρ a globals δ u u' → R δ x x' →
      Alike ρ a globals δ S (f x u) (f' x' u')) :
    Alike ρ a globals γ S ((p >>= f) w) ((p' >>= f') w') := by
  simp only [Bind.bind, EStateM.bind]
  revert h
  generalize p w = r
  generalize p' w' = r'
  intro h
  cases h with
  | value grows world hR => exact (hf _ _ _ _ _ grows world hR).after grows
  | halt h sink_eq => exact .halt h sink_eq

/-! ### Variables -/

/-- A reference under its new name gives the value that it gave under its old name, or misses its variable as
    it did. -/
theorem read (world : WorldAlike ρ a globals γ w w') (hscope : γ.At scope d) (name : String)
    (id : NodeId) :
    Alike ρ a globals γ (ValueAlike ρ a) (Eval.read (.lexical globals a) scope name id w)
      (Eval.read (.lexical globals a) scope (referAt ρ d (a.get? id) name) id w') := by
  obtain ⟨hfind, hfound⟩ := world.store.find world.globals_at hscope name id
  unfold Eval.read
  rw [hfind]
  cases htarget : Finder.lexical globals a w.store scope name id with
  | none => exact .halt (.missed _ _ id) world.sink_eq
  | some target =>
      obtain ⟨e, he, hname⟩ := hfound target htarget
      have hcell := world.store.cells he name
      rw [← hname] at hcell
      simp only [Option.bind_some]
      revert hcell
      generalize w.store.cell? target name = x
      generalize w'.store.cell? target (referAt ρ d (a.get? id) name) = x'
      intro hcell
      cases hcell with
      | some hv => exact .ok world hv
      | none => exact .halt (.missed _ _ id) world.sink_eq

theorem write (exchange : Exchange ρ) (world : WorldAlike ρ a globals γ w w') {site : Site}
    (hscope : γ.At scope site.distance) (target : Variable) {v v' : Value}
    (hv : ValueAlike ρ a γ v v') :
    Alike ρ a globals γ (fun _ _ _ => True) (Eval.write (.lexical globals a) scope target v w)
      (Eval.write (.lexical globals a) scope (target.rename ρ a site) v' w') := by
  obtain ⟨hfind, hfound⟩ := world.store.find world.globals_at hscope target.name target.id
  unfold Eval.write Variable.rename
  simp only [hfind]
  cases howner : Finder.lexical globals a w.store scope target.name target.id with
  | none => exact .halt (.missed _ _ target.id) world.sink_eq
  | some owner =>
      obtain ⟨e, he, hname⟩ := hfound owner howner
      simp only [hname]
      have hstore := world.store.put exchange he target.name hv
      exact .ok (world.withStore (List.prefix_refl γ) hstore) trivial

theorem define (exchange : Exchange ρ) (world : WorldAlike ρ a globals γ w w') (hscope : γ.At scope d)
    (name : String) {v v' : Value} (hv : ValueAlike ρ a γ v v') :
    Alike ρ a globals γ (fun _ _ _ => True) (Eval.define scope name v w)
      (Eval.define scope (nameAt ρ d name) v' w') := by
  have hstore := world.store.put exchange hscope name hv
  exact .ok (world.withStore (List.prefix_refl γ) hstore) trivial

/-- Variables that are declared one after the other, as the parameters of a function are. -/
theorem defineAll (exchange : Exchange ρ) (world : WorldAlike ρ a globals γ w w')
    (hscope : γ.At scope d) (names : List String) {vs vs' : List Value}
    (hvs : ValuesAlike ρ a γ vs vs') :
    Alike ρ a globals γ (fun _ _ _ => True) (Eval.defineAll scope (names.zip vs) w)
      (Eval.defineAll scope ((names.map (nameAt ρ d)).zip vs') w') := by
  induction names generalizing γ w w' vs vs' with
  | nil => exact .ok world trivial
  | cons name rest ih =>
      cases hvs with
      | nil => exact .ok world trivial
      | cons hv hvs =>
          apply Alike.bind (.define exchange world hscope name hv)
          intro δ _ _ u u' grows world' _
          exact ih world' (hscope.mono grows) (ValuesAlike.mono grows hvs)

/-! ### Scopes, objects and functions -/

theorem newScope (world : WorldAlike ρ a globals γ w w') {outer : ScopeId} {around : Option Nat}
    (houter : γ.At outer around) (nested : Nested around d) (origin origin' : Origin) :
    Alike ρ a globals γ (fun δ scope scope' => scope' = scope ∧ δ.At scope d)
      (Eval.newScope origin outer w) (Eval.newScope origin' outer w') := by
  obtain ⟨hnew, hat, hstore⟩ := world.store.newScope houter nested origin origin'
  have grows : γ <+: γ ++ [d] := List.prefix_append γ [d]
  exact .value grows (world.withStore grows hstore) ⟨hnew, hat⟩

theorem newObject (world : WorldAlike ρ a globals γ w w') :
    Alike ρ a globals γ (fun _ object object' => object' = object) (Eval.newObject w)
      (Eval.newObject w') := by
  obtain ⟨hnew, hstore⟩ := world.store.newObject
  exact .value (List.prefix_refl γ) (world.withStore (List.prefix_refl γ) hstore) hnew

theorem setField (world : WorldAlike ρ a globals γ w w') (object : ObjectId) (name : String)
    {v v' : Value} (hv : ValueAlike ρ a γ v v') :
    Alike ρ a globals γ (fun _ _ _ => True) (Eval.setField object name v w)
      (Eval.setField object name v' w') := by
  have hstore := world.store.setField object name hv
  exact .ok (world.withStore (List.prefix_refl γ) hstore) trivial

theorem newIdentity (world : WorldAlike ρ a globals γ w w') :
    Alike ρ a globals γ (fun _ identity identity' => identity' = identity) (Eval.newIdentity w)
      (Eval.newIdentity w') := by
  obtain ⟨hnew, hstore⟩ := world.store.newIdentity
  exact .value (List.prefix_refl γ) (world.withStore (List.prefix_refl γ) hstore) hnew

theorem newClosure (world : WorldAlike ρ a globals γ w w') (hscope : γ.At scope d) {f f' : Function}
    (hf : FunctionAlike ρ a d f f') :
    Alike ρ a globals γ (fun δ c c' => ValueAlike ρ a δ (.closure c) (.closure c'))
      (Eval.newClosure f scope w) (Eval.newClosure f' scope w') := by
  apply Alike.bind (.newIdentity world)
  intro δ identity identity' u u' grows world' hidentity
  subst hidentity
  exact .ok world' (.closure _ (hscope.mono grows) hf)

/-- A method that is bound to its receiver. The scope of `this` is not that of the renaming. -/
theorem bindMethod (exchange : Exchange ρ) (world : WorldAlike ρ a globals γ w w') {c c' : Class}
    {outer inner : Option Nat} (hclass : c'.scope = c.scope) (houter : γ.At c.scope outer)
    (nested : Nested outer inner) (hinner : inner ≠ some 0) {f f' : Function}
    (hf : FunctionAlike ρ a inner f f') {v v' : Value} (hv : ValueAlike ρ a γ v v') :
    Alike ρ a globals γ (fun δ c c' => ValueAlike ρ a δ (.closure c) (.closure c'))
      (Eval.bind c f v w) (Eval.bind c' f' v' w') := by
  unfold Eval.bind
  rw [hclass]
  apply Alike.bind (.newScope world houter nested (.binding f) (.binding f'))
  intro δ scope scope' u u' grows world' hscope
  obtain ⟨rfl, hscope⟩ := hscope
  have hthis : nameAt ρ inner "this" = "this" := if_neg hinner
  have hdefine := Alike.define exchange world' hscope "this" (hv.mono grows)
  rw [hthis] at hdefine
  apply Alike.bind hdefine
  intro η _ _ v v' grows' world'' _
  exact .newClosure world'' (hscope.mono grows') hf

/-- A field or a method is found under the same name. -/
theorem property (exchange : Exchange ρ) (world : WorldAlike ρ a globals γ w w') {v v' : Value}
    (hv : ValueAlike ρ a γ v v') (name : String) :
    Alike ρ a globals γ (ValueAlike ρ a) (Eval.property v name w) (Eval.property v' name w') := by
  have hreceiver := hv
  cases hv with
  | @object c c' hclass id =>
      rw [Eval.property, Eval.property, Eval.get_bind, Eval.get_bind]
      have hfield := world.store.fields id name
      obtain ⟨_, _, hscope, outer, inner, houter, nested, hinner, hmethods⟩ := hclass
      have hmethod := hmethods name
      revert hfield hmethod
      generalize (w.store.fields id)[name]? = x
      generalize (w'.store.fields id)[name]? = x'
      generalize c.methods[name]? = m
      generalize c'.methods[name]? = m'
      intro hfield hmethod
      cases hfield with
      | some hvalue => exact .ok world hvalue
      | none =>
          cases hmethod with
          | none => exact .fail world _
          | some hf =>
              apply Alike.bind (.bindMethod exchange world hscope houter nested hinner hf hreceiver)
              intro δ bound bound' u u' _ world' hbound
              exact .ok world' hbound
  | _ => exact .fail world _

/-! ### Output and operators -/

theorem callBuiltin (world : WorldAlike ρ a globals γ w w') (f : Builtin) {vs vs' : List Value}
    (hvs : ValuesAlike ρ a γ vs vs') :
    Alike ρ a globals γ (ValueAlike ρ a) (Eval.callBuiltin f vs w) (Eval.callBuiltin f vs' w') := by
  cases f with
  | print =>
      have hdisplay : vs'.map Value.display = vs.map Value.display :=
        hvs.map_eq fun _ _ h => h.display_eq
      simp only [Eval.callBuiltin, hdisplay]
      apply Alike.bind (R := fun _ _ _ => True)
      · simp only [Eval.emit, world.sink_eq]
        split
        · exact .value (List.prefix_refl γ) ⟨world.store, world.globals_at, rfl⟩ trivial
        · exact .halt (.same _) rfl
      · intro δ _ _ u u' _ world' _
        exact .ok world' .void

theorem ofExcept {r r' : Except RuntimeError Value} (world : WorldAlike ρ a globals γ w w')
    (h : r' = r) (hr : ∀ v, r = .ok v → ValueAlike ρ a γ v v) :
    Alike ρ a globals γ (ValueAlike ρ a) (Eval.ofExcept r w) (Eval.ofExcept r' w') := by
  subst h
  cases r' with
  | ok v => exact .ok world (hr v rfl)
  | error cause => exact .fail world cause

theorem binary (world : WorldAlike ρ a globals γ w w') (op : BinaryOp) {v v' u u' : Value}
    (hv : ValueAlike ρ a γ v v') (hu : ValueAlike ρ a γ u u') :
    Alike ρ a globals γ (ValueAlike ρ a) (Eval.ofExcept (Operators.binary op v u) w)
      (Eval.ofExcept (Operators.binary op v' u') w') :=
  .ofExcept world (Operators.binary_eq_of_looks op hv.looks hu.looks (hv.same_eq hu)) fun _ h =>
    .of_isPlain (Operators.isPlain_of_binary h)

theorem unary (world : WorldAlike ρ a globals γ w w') (op : UnaryOp) {v v' : Value}
    (hv : ValueAlike ρ a γ v v') :
    Alike ρ a globals γ (ValueAlike ρ a) (Eval.ofExcept (Operators.unary op v) w)
      (Eval.ofExcept (Operators.unary op v') w') :=
  .ofExcept world (Operators.unary_eq_of_looks op hv.looks) fun _ h =>
    .of_isPlain (Operators.isPlain_of_unary h)

end Alike

end Kiln
