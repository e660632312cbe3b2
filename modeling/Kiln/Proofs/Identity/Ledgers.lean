/-
Module: Kiln.Proofs.Identity.Ledgers
Purpose: What identities are given to. A ledger has an entry for each identity and for each object, made when
  it is given out. Entries are added and never changed, so that whatever bears an identity is the one thing that
  its entry says. Among values that are recorded in one ledger, equality as programs see it is equality.
Main exports: Ledger, Ledger.Grows, Value.Recorded, Value.eq_of_same, Store.Recorded, Records, Records.bind
-/
import Kiln.Eval.Basic
import Kiln.Proofs.Evaluation.Operands
import Kiln.Proofs.Evaluation.Safe

namespace Kiln

/-! ### Ledgers -/

/-- The functions and classes to which identities were given, and the classes of the objects, each in the order
    in which they were made. -/
structure Ledger where
  values : List Value
  classes : List Class

namespace Ledger

/-- All entries of the first ledger stand in the second one, at the same places. -/
structure Grows (l l' : Ledger) : Prop where
  values : ∀ {i : Nat} {v : Value}, l.values[i]? = some v → l'.values[i]? = some v
  classes : ∀ {i : Nat} {c : Class}, l.classes[i]? = some c → l'.classes[i]? = some c

theorem Grows.refl (l : Ledger) : Grows l l := ⟨id, id⟩

theorem Grows.trans {l l' l'' : Ledger} (h : Grows l l') (h' : Grows l' l'') : Grows l l'' :=
  ⟨h'.values ∘ h.values, h'.classes ∘ h.classes⟩

/-- Adds an entry for an identity. -/
def addValue (l : Ledger) (v : Value) : Ledger := { l with values := l.values ++ [v] }

/-- Adds an entry for an object. -/
def addClass (l : Ledger) (c : Class) : Ledger := { l with classes := l.classes ++ [c] }

theorem grows_addValue (l : Ledger) (v : Value) : l.Grows (l.addValue v) where
  values h := by
    rw [addValue, List.getElem?_append_left (List.getElem?_eq_some_iff.1 h).1]
    exact h
  classes := id

theorem grows_addClass (l : Ledger) (c : Class) : l.Grows (l.addClass c) where
  values := id
  classes h := by
    rw [addClass, List.getElem?_append_left (List.getElem?_eq_some_iff.1 h).1]
    exact h

end Ledger

/-! ### Recorded values -/

namespace Value

/-- What the ledger says of the identity or the object of a value is this value, or its class. -/
def Recorded (l : Ledger) : Value → Prop
  | .closure c => l.values[c.identity.index]? = some (.closure c)
  | .builtin f identity => l.values[identity.index]? = some (.builtin f identity)
  | .classValue c => l.values[c.identity.index]? = some (.classValue c)
  | .object c id => l.classes[id.index]? = some c
  | _ => True

/-- The same of several values. -/
def AllRecorded (l : Ledger) (vs : List Value) : Prop := ∀ v ∈ vs, v.Recorded l

variable {l l' : Ledger} {u v : Value}

theorem Recorded.mono (grows : l.Grows l') (h : v.Recorded l) : v.Recorded l' := by
  cases v with
  | closure c => exact grows.values h
  | builtin f identity => exact grows.values h
  | classValue c => exact grows.values h
  | object c id => exact grows.classes h
  | _ => trivial

theorem Recorded.of_isPlain (h : v.isPlain = true) : v.Recorded l := by
  cases v with
  | closure _ | builtin _ _ | classValue _ | object _ _ => cases h
  | _ => trivial

theorem AllRecorded.mono (grows : l.Grows l') {vs : List Value} (h : AllRecorded l vs) : AllRecorded l' vs :=
  fun v hv => (h v hv).mono grows

theorem AllRecorded.nil : AllRecorded l [] := by
  intro v hv
  cases hv

theorem AllRecorded.cons {vs : List Value} (h : v.Recorded l) (hs : AllRecorded l vs) :
    AllRecorded l (v :: vs) := by
  intro u hu
  rcases List.mem_cons.1 hu with rfl | hu
  · exact h
  · exact hs u hu

theorem AllRecorded.head {vs : List Value} (h : AllRecorded l (v :: vs)) : v.Recorded l := h v List.mem_cons_self

theorem AllRecorded.tail {vs : List Value} (h : AllRecorded l (v :: vs)) : AllRecorded l vs :=
  fun u hu => h u (List.mem_cons_of_mem v hu)

theorem AllRecorded.append {us vs : List Value} (hu : AllRecorded l us) (hv : AllRecorded l vs) :
    AllRecorded l (us ++ vs) := by
  intro v hmem
  rcases List.mem_append.1 hmem with hmem | hmem
  · exact hu v hmem
  · exact hv v hmem

theorem AllRecorded.singleton (h : v.Recorded l) : AllRecorded l [v] := .cons h .nil

/-- Every value equals itself. -/
theorem same_self (v : Value) : v.same v = true := by
  cases v <;> simp [same]

/-- Recorded values that equal each other, as programs see it, are one and the same. -/
theorem eq_of_same (hu : u.Recorded l) (hv : v.Recorded l) (h : u.same v = true) : u = v := by
  cases u <;> cases v <;> simp only [same, beq_iff_eq, Bool.false_eq_true] at h
  case void.void => rfl
  case number.number => rw [h]
  case text.text => rw [h]
  case bool.bool => rw [h]
  case closure.closure =>
    rw [Recorded, h] at hu
    exact Option.some.inj (hu.symm.trans hv)
  case builtin.builtin => rw [h]
  case classValue.classValue =>
    rw [Recorded, h] at hu
    exact Option.some.inj (hu.symm.trans hv)
  case object.object =>
    rw [Recorded, h] at hu
    rw [h, Option.some.inj (hu.symm.trans hv)]

end Value

/-! ### Recorded stores -/

/-- The ledger has an entry for each identity and each object that the store has given out, and all values in the
    store are recorded in it. -/
structure Store.Recorded (l : Ledger) (s : Store) : Prop where
  identities : l.values.length = s.identities
  objects : l.classes.length = s.objects.size
  cells : ∀ {scope : ScopeId} {name : String} {v : Value}, s.cell? scope name = some v → v.Recorded l
  fields : ∀ {object : ObjectId} {name : String} {v : Value},
    (s.fields object)[name]? = some v → v.Recorded l

namespace Store.Recorded

variable {l : Ledger} {s : Store}

theorem empty : Store.empty.Recorded ⟨[], []⟩ where
  identities := rfl
  objects := rfl
  cells hv := by simp [Store.cell?, Store.empty] at hv
  fields hv := by simp [Store.fields, Store.empty] at hv

theorem put (h : s.Recorded l) (scope : ScopeId) (name : String) {value : Value}
    (hvalue : value.Recorded l) : (s.put scope name value).Recorded l where
  identities := h.identities
  objects := h.objects
  cells {other sought v} hv := by
    by_cases hlt : scope.index < s.scopes.size
    · rw [Store.cell?_put s hlt] at hv
      split at hv
      · cases hv
        exact hvalue
      · exact h.cells hv
    · rw [Store.put_of_size_le s (Nat.le_of_not_lt hlt)] at hv
      exact h.cells hv
  fields hv := h.fields hv

theorem newScope (h : s.Recorded l) (origin : Origin) (parent : Option ScopeId) :
    (s.newScope origin parent).2.Recorded l where
  identities := h.identities
  objects := h.objects
  cells hv := by
    rw [Store.cell?_newScope] at hv
    exact h.cells hv
  fields hv := h.fields hv

theorem setField (h : s.Recorded l) (object : ObjectId) (name : String) {value : Value}
    (hvalue : value.Recorded l) : (s.setField object name value).Recorded l where
  identities := h.identities
  objects := h.objects.trans (by simp [Store.setField])
  cells hv := h.cells hv
  fields hv := by
    rcases s.eq_or_eq_of_fields_setField hv with rfl | hold
    · exact hvalue
    · exact h.fields hold

/-- A new identity gets an entry. -/
theorem newIdentity (h : s.Recorded l) (v : Value) : s.newIdentity.2.Recorded (l.addValue v) where
  identities := by simp [Ledger.addValue, Store.newIdentity, h.identities]
  objects := h.objects
  cells hv := (h.cells hv).mono (l.grows_addValue v)
  fields hv := (h.fields hv).mono (l.grows_addValue v)

/-- A new object gets an entry. -/
theorem newObject (h : s.Recorded l) (c : Class) : s.newObject.2.Recorded (l.addClass c) where
  identities := h.identities
  objects := by simp [Ledger.addClass, Store.newObject, h.objects]
  cells hv := (h.cells hv).mono (l.grows_addClass c)
  fields hv := by
    rw [Store.fields_newObject] at hv
    exact (h.fields hv).mono (l.grows_addClass c)

/-- The next identity will have the next entry. -/
theorem getElem?_addValue (h : s.Recorded l) (v : Value) :
    (l.addValue v).values[s.newIdentity.1.index]? = some v := by
  rw [Ledger.addValue, Store.newIdentity, ← h.identities]
  exact List.getElem?_concat_length

theorem getElem?_addClass (h : s.Recorded l) (c : Class) :
    (l.addClass c).classes[s.newObject.1.index]? = some c := by
  rw [Ledger.addClass, Store.newObject, ← h.objects]
  exact List.getElem?_concat_length

/-- An object that is recorded has been made. -/
theorem lt_size (h : s.Recorded l) {c : Class} {id : ObjectId} (hid : (Value.object c id).Recorded l) :
    id.index < s.objects.size := by
  rw [← h.objects]
  exact (List.getElem?_eq_some_iff.1 hid).1

end Store.Recorded

/-! ### Steps of evaluation -/

/-- The outcome of something that was begun with the ledger `l`: with entries added to it, the store is recorded,
    and a value has the property `Q`. -/
def Records {ε α : Type} (l : Ledger) (Q : α → Ledger → Prop) : EStateM.Result ε World α → Prop
  | .ok a w => ∃ l', l.Grows l' ∧ w.store.Recorded l' ∧ Q a l'
  | .error _ w => ∃ l', l.Grows l' ∧ w.store.Recorded l'

namespace Records

open Eval

variable {ε α β : Type} {l : Ledger} {w : World} {Q : α → Ledger → Prop} {R : β → Ledger → Prop}

theorem ok (h : w.store.Recorded l) {a : α} (hQ : Q a l) : Records l Q (.ok a w : EStateM.Result ε World α) :=
  ⟨l, .refl l, h, hQ⟩

theorem error (h : w.store.Recorded l) (e : ε) : Records l Q (.error e w) := ⟨l, .refl l, h⟩

/-- An outcome that began with a ledger to which entries had been added before. -/
theorem after {l' : Ledger} {r : EStateM.Result ε World α} (grows : l.Grows l') (h : Records l' Q r) :
    Records l Q r := by
  cases r with
  | ok a w =>
      obtain ⟨l'', grows', hrest⟩ := h
      exact ⟨l'', grows.trans grows', hrest⟩
  | error e w =>
      obtain ⟨l'', grows', hrest⟩ := h
      exact ⟨l'', grows.trans grows', hrest⟩

theorem imp {Q' : α → Ledger → Prop} {r : EStateM.Result ε World α} (h : Records l Q r)
    (hQ : ∀ a l', Q a l' → Q' a l') : Records l Q' r := by
  cases r with
  | ok a w =>
      obtain ⟨l', grows, hstore, ha⟩ := h
      exact ⟨l', grows, hstore, hQ a l' ha⟩
  | error e w => exact h

theorem bind {p : EStateM ε World α} {f : α → EStateM ε World β} (h : Records l Q (p w))
    (hf : ∀ a w' l', l.Grows l' → w'.store.Recorded l' → Q a l' → Records l' R (f a w')) :
    Records l R ((p >>= f) w) := by
  cases hp : p w with
  | error e w' =>
      rw [hp] at h
      rw [Eval.bind_of_error hp]
      exact h
  | ok a w' =>
      rw [hp] at h
      obtain ⟨l', grows, hstore, hQ⟩ := h
      rw [Eval.bind_of_ok hp]
      exact (hf a w' l' grows hstore hQ).after grows

/-- What is known of an outcome that is a value. -/
theorem of_eq_ok {r : EStateM.Result ε World α} (h : Records l Q r) {a : α} (done : r = .ok a w) :
    ∃ l', l.Grows l' ∧ w.store.Recorded l' ∧ Q a l' := by
  rw [done] at h
  exact h

theorem of_eq_error {r : EStateM.Result ε World α} (h : Records l Q r) {e : ε} (done : r = .error e w) :
    ∃ l', l.Grows l' ∧ w.store.Recorded l' := by
  rw [done] at h
  exact h

theorem read (h : w.store.Recorded l) (find : Finder) (scope : ScopeId) (name : String) (id : NodeId) :
    Records l (fun v l' => v.Recorded l') (Eval.read find scope name id w) := by
  unfold Eval.read
  split
  · next v hv =>
    obtain ⟨target, _, hcell⟩ := Option.bind_eq_some_iff.1 hv
    exact .ok h (h.cells hcell)
  · exact .error h _

theorem write (h : w.store.Recorded l) (find : Finder) (scope : ScopeId) (target : Variable) {value : Value}
    (hvalue : value.Recorded l) :
    Records l (fun _ _ => True) (Eval.write find scope target value w) := by
  unfold Eval.write
  split
  · next owner _ => exact .ok (h.put owner target.name hvalue) trivial
  · exact .error h _

theorem define (h : w.store.Recorded l) (scope : ScopeId) (name : String) {value : Value}
    (hvalue : value.Recorded l) :
    Records l (fun _ _ => True) (Eval.define scope name value w) :=
  ⟨l, .refl l, h.put scope name hvalue, trivial⟩

theorem defineAll (scope : ScopeId) {cells : List (String × Value)} (h : w.store.Recorded l)
    (values : ∀ c ∈ cells, c.2.Recorded l) :
    Records l (fun _ _ => True) (Eval.defineAll scope cells w) := by
  induction cells generalizing w l with
  | nil => exact .ok h trivial
  | cons c rest ih =>
      apply Records.bind (define h scope c.1 (values c List.mem_cons_self))
      intro _ w' l' grows h' _
      exact ih h' fun other hother => (values other (List.mem_cons_of_mem c hother)).mono grows

theorem newScope (h : w.store.Recorded l) (origin : Origin) (parent : ScopeId) :
    Records l (fun _ _ => True) (Eval.newScope origin parent w) :=
  ⟨l, .refl l, h.newScope origin (some parent), trivial⟩

/-- Something is made that bears the new identity. -/
theorem newIdentity (h : w.store.Recorded l) (made : Identity → Value) :
    Records l (fun identity l' => l'.values[identity.index]? = some (made identity)) (Eval.newIdentity w) :=
  ⟨_, l.grows_addValue _, h.newIdentity (made w.store.newIdentity.1), h.getElem?_addValue _⟩

/-- An object of the class is made. -/
theorem newObject (h : w.store.Recorded l) (c : Class) :
    Records l (fun object l' => (Value.object c object).Recorded l') (Eval.newObject w) :=
  ⟨_, l.grows_addClass c, h.newObject c, h.getElem?_addClass c⟩

theorem setField (h : w.store.Recorded l) (object : ObjectId) (name : String) {value : Value}
    (hvalue : value.Recorded l) :
    Records l (fun _ _ => True) (Eval.setField object name value w) :=
  ⟨l, .refl l, h.setField object name hvalue, trivial⟩

theorem newClosure (h : w.store.Recorded l) (f : Function) (scope : ScopeId) :
    Records l (fun c l' => (Value.closure c).Recorded l') (Eval.newClosure f scope w) := by
  apply Records.bind (newIdentity h fun identity => .closure ⟨identity, f, scope⟩)
  intro identity w' l' _ h' hentry
  exact .ok h' hentry

theorem bindMethod (h : w.store.Recorded l) (c : Class) (method : Function) {receiver : Value}
    (hreceiver : receiver.Recorded l) :
    Records l (fun bound l' => (Value.closure bound).Recorded l') (Eval.bind c method receiver w) := by
  apply Records.bind (newScope h (.binding method) c.scope)
  intro scope w₁ l₁ grows₁ h₁ _
  apply Records.bind (define h₁ scope "this" (hreceiver.mono grows₁))
  intro _ w₂ l₂ _ h₂ _
  exact newClosure h₂ method scope

theorem property (h : w.store.Recorded l) {value : Value} (hvalue : value.Recorded l) (name : String) :
    Records l (fun v l' => v.Recorded l') (Eval.property value name w) := by
  cases value with
  | object c object =>
      rw [Eval.property, Eval.get_bind]
      cases hfield : (w.store.fields object)[name]? with
      | some v => exact .ok h (h.fields hfield)
      | none =>
          cases c.methods[name]? with
          | none => exact .error h _
          | some method =>
              apply Records.bind (bindMethod h c method hvalue)
              intro closure w' l' _ h' hclosure
              exact .ok h' hclosure
  | _ => exact .error h _

/-- Operators give values without an identity. -/
theorem ofExcept (h : w.store.Recorded l) {r : Except RuntimeError Value}
    (plain : ∀ v, r = .ok v → v.isPlain = true) :
    Records l (fun v l' => v.Recorded l') (Eval.ofExcept r w) := by
  cases r with
  | ok v => exact .ok h (.of_isPlain (plain v rfl))
  | error cause => exact .error h _

theorem callBuiltin (h : w.store.Recorded l) (f : Builtin) (args : List Value) :
    Records l (fun v l' => v.Recorded l') (Eval.callBuiltin f args w) := by
  cases f with
  | print =>
      have hemit : ∀ function text,
          Records l (fun _ _ => True) (Eval.emit function text w) := by
        intro function text
        simp only [Eval.emit]
        split
        · exact ⟨l, .refl l, h, trivial⟩
        · exact ⟨l, .refl l, h⟩
      apply Records.bind (hemit _ _)
      intro _ w' l' _ h' _
      exact .ok h' trivial

end Records

end Kiln
