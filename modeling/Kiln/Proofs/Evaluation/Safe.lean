/-
Module: Kiln.Proofs.Evaluation.Safe
Purpose: Outcomes that leave a sound store behind, also where they are failures. The steps from which
  evaluation is built have such outcomes, and outcomes of steps one after the other compose. A variable
  is missed only where a reference to it is placed and the way of finding variables gives no scope.
Main exports: Finder.Honest, Setting.Missed, Safe, Safe.bind, Safe.read, Safe.write, Safe.define,
  Safe.defineAll, Safe.bindMethod, Safe.property
-/
import Kiln.Eval.Basic
import Kiln.Proofs.Evaluation.Parts

namespace Kiln

open Eval

/-- A way of finding variables that gives only scopes that have the variable. -/
def Finder.Honest (find : Finder) : Prop :=
  ∀ (s : Store) (scope target : ScopeId) (name : String) (id : NodeId),
    find s scope name id = some target → s.defines target name = true

theorem Finder.honest_lexical (globals : ScopeId) (a : Annotations) :
    (Finder.lexical globals a).Honest := by
  intro s scope target name id h
  unfold Finder.lexical at h
  split at h
  · exact (Store.ownerAt?_eq_some_iff.1 h).2
  · exact Store.defines_of_owner? h

namespace Setting

variable (Γ : Setting)

/-- There is a place where a reference is evaluated and its variable is not found. -/
def Missed (find : Finder) (name : String) (id : NodeId) : Prop :=
  ∃ s scope, Γ.Sound s ∧ Γ.Referred s scope name id ∧ find s scope name id = none

end Setting

theorem Eval.get_bind {α : Type} (f : World → Eval α) (w : World) : (get >>= f) w = f w w := rfl

section Sequencing

variable {ε α β : Type} {p : EStateM ε World α} {w w' : World}

theorem Eval.bind_of_ok {a : α} (h : p w = .ok a w') (f : α → EStateM ε World β) :
    (p >>= f) w = f a w' := by
  simp only [Bind.bind, EStateM.bind, h]

theorem Eval.bind_of_error {e : ε} (h : p w = .error e w') (f : α → EStateM ε World β) :
    (p >>= f) w = .error e w' := by
  simp only [Bind.bind, EStateM.bind, h]

/-- A step that succeeds after another one begins where that one has ended. -/
theorem Eval.exists_of_bind_eq_ok {f : α → EStateM ε World β} {b : β} {w'' : World}
    (h : (p >>= f) w = .ok b w'') : ∃ a w', p w = .ok a w' ∧ f a w' = .ok b w'' := by
  cases hp : p w with
  | ok a w' =>
      rw [Eval.bind_of_ok hp] at h
      exact ⟨a, w', rfl, h⟩
  | error e w' =>
      rw [Eval.bind_of_error hp] at h
      cases h

end Sequencing

/-! ### Outcomes that keep the store sound -/

/-- The outcome of something that was begun in the store `s`: the store has grown and is sound, a value has
    the property `Q`, and a variable is missing only where it was looked for. -/
def Safe {α : Type} (Γ : Setting) (find : Finder) (s : Store) (Q : α → Store → Prop) :
    EStateM.Result Halt World α → Prop
  | .ok a w => Γ.Sound w.store ∧ s.Grows w.store ∧ Q a w.store
  | .error e w => Γ.Sound w.store ∧ s.Grows w.store ∧
    ∀ name id, e = .failed (.undefinedVariable name id) → Γ.Missed find name id

namespace Safe

variable {Γ : Setting} {find : Finder} {s : Store} {w : World} {α β : Type}
  {Q : α → Store → Prop} {R : β → Store → Prop}

theorem ok (sound : Γ.Sound w.store) {a : α} (h : Q a w.store) :
    Safe Γ find w.store Q (.ok a w) :=
  ⟨sound, .refl _, h⟩

/-- A failure that is not about a variable. -/
theorem fail (sound : Γ.Sound w.store) {cause : RuntimeError}
    (other : ∀ name id, cause ≠ .undefinedVariable name id) :
    Safe Γ find w.store Q (Eval.fail cause w) := by
  refine ⟨sound, .refl _, fun name id h => ?_⟩
  cases h
  exact absurd rfl (other name id)

theorem outOfFuel (sound : Γ.Sound w.store) : Safe Γ find w.store Q (.error .outOfFuel w) :=
  ⟨sound, .refl _, fun _ _ h => nomatch h⟩

/-- An outcome that began in a store which had grown before. -/
theorem after {t : Store} {r : EStateM.Result Halt World α} (grows : s.Grows t)
    (h : Safe Γ find t Q r) : Safe Γ find s Q r := by
  cases r with
  | ok a w => exact ⟨h.1, grows.trans h.2.1, h.2.2⟩
  | error e w => exact ⟨h.1, grows.trans h.2.1, h.2.2⟩

theorem bind {p : Eval α} {f : α → Eval β} (h : Safe Γ find s Q (p w))
    (hf : ∀ a w', p w = .ok a w' → Γ.Sound w'.store → s.Grows w'.store → Q a w'.store →
      Safe Γ find w'.store R (f a w')) : Safe Γ find s R ((p >>= f) w) := by
  cases hp : p w with
  | error e w' =>
      rw [hp] at h
      rw [Eval.bind_of_error hp]
      exact h
  | ok a w' =>
      rw [hp] at h
      obtain ⟨sound, grows, hQ⟩ := h
      rw [Eval.bind_of_ok hp]
      exact (hf a w' hp sound grows hQ).after grows

theorem imp {Q' : α → Store → Prop} {r : EStateM.Result Halt World α} (h : Safe Γ find s Q r)
    (hQ : ∀ a t, s.Grows t → Q a t → Q' a t) : Safe Γ find s Q' r := by
  cases r with
  | ok a w => exact ⟨h.1, h.2.1, hQ a w.store h.2.1 h.2.2⟩
  | error e w => exact h

/-- What is known of an outcome that is a value. -/
theorem of_eq_ok {r : EStateM.Result Halt World α} (h : Safe Γ find s Q r) {a : α}
    (done : r = .ok a w) : Γ.Sound w.store ∧ s.Grows w.store ∧ Q a w.store := by
  rw [done] at h
  exact h

/-! ### The steps from which evaluation is built -/

theorem read (honest : find.Honest) (sound : Γ.Sound w.store) {scope : ScopeId} {name : String}
    {id : NodeId} (referred : Γ.Referred w.store scope name id) :
    Safe Γ find w.store (fun v t => Γ.Valid t v) (Eval.read find scope name id w) := by
  unfold Eval.read
  cases hfind : find w.store scope name id with
  | none =>
      refine ⟨sound, .refl _, fun name' id' h => ?_⟩
      cases h
      exact ⟨w.store, scope, sound, referred, hfind⟩
  | some target =>
      obtain ⟨v, hv⟩ := Option.isSome_iff_exists.1 (honest _ _ _ _ _ hfind)
      simp only [Option.bind_some, hv]
      exact .ok sound (sound.cells hv)

theorem write (honest : find.Honest) (sound : Γ.Sound w.store) {scope : ScopeId} {target : Variable}
    {value : Value} (referred : Γ.Referred w.store scope target.name target.id)
    (valid : Γ.Valid w.store value) :
    Safe Γ find w.store (fun _ _ => True) (Eval.write find scope target value w) := by
  unfold Eval.write
  cases hfind : find w.store scope target.name target.id with
  | none =>
      refine ⟨sound, .refl _, fun name' id' h => ?_⟩
      cases h
      exact ⟨w.store, scope, sound, referred, hfind⟩
  | some owner =>
      have grows := Store.Grows.put w.store owner target.name value
      exact ⟨sound.put (sound.named (honest _ _ _ _ _ hfind)) (valid.mono grows), grows, trivial⟩

/-- Declaring a variable. Its value has to be valid only once the variable is there. -/
theorem define (sound : Γ.Sound w.store) {scope : ScopeId} {name : String} {value : Value}
    (named : Γ.Named w.store scope name) (hlt : scope.index < w.store.scopes.size)
    (valid : ∀ t, w.store.Grows t → t.defines scope name = true → Γ.Valid t value) :
    Safe Γ find w.store (fun _ t => t.defines scope name = true ∧ Γ.Valid t value)
      (Eval.define scope name value w) := by
  have grows := Store.Grows.put w.store scope name value
  have hthere : (w.store.put scope name value).defines scope name = true :=
    (Store.defines_put w.store hlt scope name name value).2 (.inl ⟨rfl, rfl⟩)
  have hvalid := valid _ grows hthere
  exact ⟨sound.put named hvalid, grows, hthere, hvalid⟩

theorem newScope (find : Finder) (sound : Γ.Sound w.store) {origin : Origin} {parent : ScopeId}
    (hlt : parent.index < w.store.scopes.size) :
    Safe Γ find w.store
      (fun inner t => t.origin? inner = some origin ∧ t.parent? inner = some parent)
      (Eval.newScope origin parent w) := by
  refine ⟨sound.newScope origin hlt, .newScope w.store origin (some parent), ?_, ?_⟩
  · exact (Store.origin?_newScope w.store origin (some parent) _).trans (if_pos rfl)
  · exact (Store.parent?_newScope w.store origin (some parent) _).trans (if_pos rfl)

theorem newIdentity (find : Finder) (sound : Γ.Sound w.store) :
    Safe Γ find w.store (fun _ _ => True) (Eval.newIdentity w) :=
  ⟨sound.newIdentity, .newIdentity w.store, trivial⟩

theorem newObject (find : Finder) (sound : Γ.Sound w.store) :
    Safe Γ find w.store (fun _ _ => True) (Eval.newObject w) :=
  ⟨sound.newObject, .newObject w.store, trivial⟩

theorem setField (sound : Γ.Sound w.store) (object : ObjectId) (name : String) {value : Value}
    (valid : Γ.Valid w.store value) :
    Safe Γ find w.store (fun _ _ => True) (Eval.setField object name value w) :=
  ⟨sound.setField object name valid, .setField w.store object name value, trivial⟩

theorem newClosure (find : Finder) (sound : Γ.Sound w.store) (f : Function) (scope : ScopeId) :
    Safe Γ find w.store (fun c _ => ∃ identity, c = ⟨identity, f, scope⟩)
      (Eval.newClosure f scope w) := by
  refine .bind (.newIdentity find sound) fun identity w' _ sound' _ _ => ?_
  exact .ok sound' ⟨identity, rfl⟩

/-- Binding a method opens the scope in which it is placed. -/
theorem bindMethod (find : Finder) (sound : Γ.Sound w.store) {c : Class} {m : Function} {receiver : Value}
    (hlt : c.scope.index < w.store.scopes.size) (placed : Γ.MethodPlaced w.store c.scope m)
    (valid : Γ.Valid w.store receiver) :
    Safe Γ find w.store (fun bound t => Γ.FunctionPlaced t bound.scope bound.function)
      (Eval.bind c m receiver w) := by
  refine .bind (.newScope find sound hlt) fun inner w₁ _ sound₁ grows₁ hinner => ?_
  obtain ⟨horigin, hparent⟩ := hinner
  have hname : Γ.Named w₁.store inner "this" := .inr (.inr ⟨_, horigin, by simp [Origin.names]⟩)
  refine .bind (.define sound₁ hname (Store.lt_size_of_origin? horigin)
    fun t grows _ => valid.mono (grows₁.trans grows)) fun _ w₂ _ sound₂ grows₂ hthis => ?_
  refine (newClosure find sound₂ m inner).imp ?_
  rintro bound t grows₃ ⟨identity, rfl⟩
  have grows := grows₂.trans grows₃
  exact placed t inner (grows₁.trans grows) (grows.origin horigin) (grows.parent hparent)
    (grows₃.defines hthis.1)

/-- A member of an instance is a valid value. -/
theorem property (sound : Γ.Sound w.store) {object : Value} (valid : Γ.Valid w.store object)
    (name : String) :
    Safe Γ find w.store (fun v t => Γ.Valid t v) (Eval.property object name w) := by
  cases object with
  | object c id =>
      rw [Eval.property, Eval.get_bind]
      cases hfield : (w.store.fields id)[name]? with
      | some value => exact .ok sound (sound.fields hfield)
      | none =>
          cases hmethod : c.methods[name]? with
          | none => exact .fail sound (by simp)
          | some m =>
              refine .bind (bindMethod find sound valid.1 (valid.2 name m hmethod) valid) ?_
              intro bound w' _ sound' _ placed
              exact .ok sound' placed
  | _ => exact .fail sound (by simp)

/-- Declaring variables with valid values. They are all there afterwards. -/
theorem defineAll (find : Finder) {scope : ScopeId} (cells : List (String × Value)) (sound : Γ.Sound w.store)
    (hlt : scope.index < w.store.scopes.size)
    (named : ∀ c ∈ cells, Γ.Named w.store scope c.1) (valid : ∀ c ∈ cells, Γ.Valid w.store c.2) :
    Safe Γ find w.store (fun _ t => ∀ c ∈ cells, t.defines scope c.1 = true)
      (Eval.defineAll scope cells w) := by
  induction cells generalizing w with
  | nil => exact .ok sound (by simp)
  | cons c rest ih =>
      obtain ⟨name, value⟩ := c
      refine .bind (.define sound (named _ List.mem_cons_self) hlt
        fun t grows _ => (valid _ List.mem_cons_self).mono grows) ?_
      intro _ w' _ sound' grows' here
      have hrest := ih sound' (grows'.lt_size hlt)
        (fun c hc => (named c (List.mem_cons_of_mem _ hc)).mono grows')
        (fun c hc => (valid c (List.mem_cons_of_mem _ hc)).mono grows')
      refine hrest.imp fun _ t grows hthere c hc => ?_
      rcases List.mem_cons.1 hc with rfl | hc
      · exact grows.defines here.1
      · exact hthere c hc

theorem arithmetic (sound : Γ.Sound w.store) (op : BinaryOp) (a b : Int64) :
    Safe Γ find w.store (fun v t => Γ.Valid t v) (ofExcept (Operators.arithmetic op a b) w) := by
  cases op with
  | div | mod =>
      simp only [Operators.arithmetic]
      split
      · exact .fail sound (by simp)
      · exact .ok sound trivial
  | _ => exact .ok sound trivial

/-- Operators fail for reasons of their own, and give values that are no functions. -/
theorem binary (sound : Γ.Sound w.store) (op : BinaryOp) (a b : Value) :
    Safe Γ find w.store (fun v t => Γ.Valid t v) (ofExcept (Operators.binary op a b) w) := by
  unfold Operators.binary
  split
  · exact .ok sound trivial
  · exact .ok sound trivial
  · exact .ok sound trivial
  · exact arithmetic sound _ _ _
  · exact .fail sound (by simp)

theorem unary (sound : Γ.Sound w.store) (op : UnaryOp) (a : Value) :
    Safe Γ find w.store (fun v t => Γ.Valid t v) (ofExcept (Operators.unary op a) w) := by
  unfold Operators.unary
  split
  · exact .ok sound trivial
  · exact .ok sound trivial
  · exact .fail sound (by simp)

theorem callBuiltin (sound : Γ.Sound w.store) (f : Builtin) (args : List Value) :
    Safe Γ find w.store (fun v t => Γ.Valid t v) (Eval.callBuiltin f args w) := by
  cases f with
  | print =>
      apply Safe.bind (Q := fun _ _ => True)
      · simp only [Eval.emit]
        split
        · exact ⟨sound, .refl _, trivial⟩
        · exact ⟨sound, .refl _, fun _ _ h => nomatch h⟩
      · intro _ w' _ sound' _ _
        exact .ok sound' trivial

end Safe

end Kiln
