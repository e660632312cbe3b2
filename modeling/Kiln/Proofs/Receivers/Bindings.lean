/-
Module: Kiln.Proofs.Receivers.Bindings
Purpose: Methods and their receivers. A method is bound to an instance where it is taken from the instance as a
  member, and where a class is called and its method `init` runs. Each binding opens a scope of its own, in
  which `this` is the instance. A store is faithful to the bindings that have been made if each of these scopes
  has its instance, if no function but the method has been made there, and if no function that can
  still be called has a variable called `this`. The steps from which evaluation is built keep stores faithful.
Main exports: Binding, Store.Admits, Store.Plain, Value.Faithful, Store.Faithful, Store.Faithful.bind, Keeps,
  Keeps.bind, Keeps.bindMethod, Keeps.property
-/
import Kiln.Proofs.Evaluation.Safe

namespace Kiln

/-- A method that has been bound to an instance. -/
structure Binding where
  class_ : Class
  object : ObjectId
  method : Function
  /-- The scope that was opened for it. -/
  scope : ScopeId

/-- The instance to which the method was bound. -/
def Binding.receiver (b : Binding) : Value := .object b.class_ b.object

namespace Store

/-- A function can be made in this scope: if a method was bound there, then it is this method. -/
def Admits (s : Store) (scope : ScopeId) (f : Function) : Prop :=
  ∃ origin, s.origin? scope = some origin ∧ ∀ m, origin = .binding m → f = m

/-- No method was bound in this scope. -/
def Plain (s : Store) (scope : ScopeId) : Prop :=
  ∃ origin, s.origin? scope = some origin ∧ ∀ m, origin ≠ .binding m

variable {s t : Store} {scope : ScopeId}

theorem Admits.mono (grows : s.Grows t) {f : Function} (h : s.Admits scope f) : t.Admits scope f := by
  obtain ⟨origin, horigin, hsame⟩ := h
  exact ⟨origin, grows.origin horigin, hsame⟩

theorem Plain.mono (grows : s.Grows t) (h : s.Plain scope) : t.Plain scope := by
  obtain ⟨origin, horigin, hother⟩ := h
  exact ⟨origin, grows.origin horigin, hother⟩

theorem Plain.admits (h : s.Plain scope) (f : Function) : s.Admits scope f := by
  obtain ⟨origin, horigin, hother⟩ := h
  exact ⟨origin, horigin, fun m hm => absurd hm (hother m)⟩

end Store

/-- No function in the value has a variable called `this`, and a function that was made where a method was
    bound is this method. -/
def Value.Faithful (s : Store) : Value → Prop
  | .closure c => "this" ∉ c.function.names ∧ s.Admits c.scope c.function
  | .classValue c | .object c _ =>
    ∀ (name : String) (m : Function), c.methods[name]? = some m → "this" ∉ m.names
  | _ => True

theorem Value.Faithful.mono {s t : Store} (grows : s.Grows t) {v : Value} (h : v.Faithful s) :
    v.Faithful t := by
  cases v with
  | closure c => exact ⟨h.1, h.2.mono grows⟩
  | _ => exact h

/-- The same of several values. -/
def Value.AllFaithful (s : Store) (vs : List Value) : Prop := ∀ v ∈ vs, v.Faithful s

theorem Value.AllFaithful.mono {s t : Store} (grows : s.Grows t) {vs : List Value}
    (h : Value.AllFaithful s vs) : Value.AllFaithful t vs :=
  fun v hv => (h v hv).mono grows

/-- Every scope in which a method was bound is that of one of the bindings and has its instance. Calls inside
    it are calls of the method. -/
structure Store.Faithful (bound : Binding → Prop) (s : Store) : Prop where
  cells : ∀ {scope : ScopeId} {name : String} {v : Value}, s.cell? scope name = some v → v.Faithful s
  fields : ∀ {object : ObjectId} {name : String} {v : Value},
    (s.fields object)[name]? = some v → v.Faithful s
  calls : ∀ {scope : ScopeId} {f : Function}, s.origin? scope = some (.call f) →
    ∃ outer, s.parent? scope = some outer ∧ s.Admits outer f
  bindings : ∀ {scope : ScopeId} {m : Function}, s.origin? scope = some (.binding m) →
    ∃ b, bound b ∧ b.scope = scope ∧ b.method = m ∧ s.cell? scope "this" = some b.receiver

/-! ### Operations -/

namespace Store.Faithful

variable {bound : Binding → Prop} {s t : Store}

/-- A store that has grown is faithful if what is new in it is. -/
theorem of_grows (h : s.Faithful bound) (grows : s.Grows t)
    (cells : ∀ {scope : ScopeId} {name : String} {v : Value}, t.cell? scope name = some v →
      s.cell? scope name = some v ∨ v.Faithful t)
    (fields : ∀ {object : ObjectId} {name : String} {v : Value}, (t.fields object)[name]? = some v →
      (s.fields object)[name]? = some v ∨ v.Faithful t)
    (calls : ∀ {scope : ScopeId} {f : Function}, t.origin? scope = some (.call f) →
      s.origin? scope = some (.call f) ∨ ∃ outer, t.parent? scope = some outer ∧ t.Admits outer f)
    (bindings : ∀ {scope : ScopeId} {m : Function}, t.origin? scope = some (.binding m) →
      s.origin? scope = some (.binding m) ∧ t.cell? scope "this" = s.cell? scope "this" ∨
        ∃ b, bound b ∧ b.scope = scope ∧ b.method = m ∧ t.cell? scope "this" = some b.receiver) :
    t.Faithful bound where
  cells hv := by
    rcases cells hv with hold | hnew
    · exact (h.cells hold).mono grows
    · exact hnew
  fields hv := by
    rcases fields hv with hold | hnew
    · exact (h.fields hold).mono grows
    · exact hnew
  calls hscope := by
    rcases calls hscope with hold | hnew
    · obtain ⟨outer, houter, hadmits⟩ := h.calls hold
      exact ⟨outer, grows.parent houter, hadmits.mono grows⟩
    · exact hnew
  bindings hscope := by
    rcases bindings hscope with ⟨hold, hsame⟩ | hnew
    · rw [hsame]
      exact h.bindings hold
    · exact hnew

/-- Giving a variable a value that is not called `this`. -/
theorem put (h : s.Faithful bound) (scope : ScopeId) {name : String} {value : Value}
    (hname : name ≠ "this") (hvalue : value.Faithful s) : (s.put scope name value).Faithful bound := by
  have grows := Store.Grows.put s scope name value
  by_cases hlt : scope.index < s.scopes.size
  · apply h.of_grows grows
    · intro other sought v hv
      rw [Store.cell?_put s hlt] at hv
      split at hv
      · cases hv
        exact .inr (hvalue.mono grows)
      · exact .inl hv
    · exact .inl
    · intro other f hother
      rw [Store.origin?_put] at hother
      exact .inl hother
    · intro other m hother
      rw [Store.origin?_put] at hother
      refine .inl ⟨hother, ?_⟩
      rw [Store.cell?_put s hlt, if_neg fun hsame => hname hsame.2]
  · rw [Store.put_of_size_le s (Nat.le_of_not_lt hlt)]
    exact h

/-- Opening a scope for a block or a call. -/
theorem newScope (h : s.Faithful bound) {origin : Origin} (parent : ScopeId)
    (plain : ∀ m, origin ≠ .binding m) (admits : ∀ f, origin = .call f → s.Admits parent f) :
    (s.newScope origin (some parent)).2.Faithful bound := by
  have grows := Store.Grows.newScope s origin (some parent)
  apply h.of_grows grows
  · intro other sought v hv
    rw [Store.cell?_newScope] at hv
    exact .inl hv
  · exact .inl
  · intro other f hother
    rw [Store.origin?_newScope] at hother
    split at hother
    · next hsame =>
      refine .inr ⟨parent, ?_, (admits f (Option.some.inj hother)).mono grows⟩
      rw [Store.parent?_newScope, if_pos hsame]
    · exact .inl hother
  · intro other m hother
    rw [Store.origin?_newScope] at hother
    split at hother
    · exact absurd (Option.some.inj hother) (plain m)
    · exact .inl ⟨hother, Store.cell?_newScope s origin (some parent) other "this"⟩

theorem newIdentity (h : s.Faithful bound) : s.newIdentity.2.Faithful bound :=
  h.of_grows (.newIdentity s) .inl .inl .inl fun hother => .inl ⟨hother, rfl⟩

theorem newObject (h : s.Faithful bound) : s.newObject.2.Faithful bound := by
  apply h.of_grows (.newObject s) .inl _ .inl fun hother => .inl ⟨hother, rfl⟩
  intro object sought v hv
  rw [Store.fields_newObject] at hv
  exact .inl hv

theorem setField (h : s.Faithful bound) (object : ObjectId) (name : String) {value : Value}
    (hvalue : value.Faithful s) : (s.setField object name value).Faithful bound := by
  have grows := Store.Grows.setField s object name value
  apply h.of_grows grows .inl _ .inl fun hother => .inl ⟨hother, rfl⟩
  intro other sought v hv
  rcases s.eq_or_eq_of_fields_setField hv with rfl | hold
  · exact .inr (hvalue.mono grows)
  · exact .inl hold

/-- Binding a method opens a scope in which `this` is the receiver. -/
theorem bind (h : s.Faithful bound) {b : Binding} (hb : bound b) (hscope : b.scope = ⟨s.scopes.size⟩)
    (parent : ScopeId) (hreceiver : b.receiver.Faithful s) :
    ((s.newScope (.binding b.method) (some parent)).2.put b.scope "this" b.receiver).Faithful bound := by
  have grows := (Store.Grows.newScope s (.binding b.method) (some parent)).trans
    (.put _ b.scope "this" b.receiver)
  have hnew : (s.newScope (.binding b.method) (some parent)).1 = b.scope := hscope.symm
  have hlt : b.scope.index < (s.newScope (.binding b.method) (some parent)).2.scopes.size := by
    rw [hscope]
    simp [Store.newScope]
  apply h.of_grows grows
  · intro other sought v hv
    rw [Store.cell?_put _ hlt, Store.cell?_newScope] at hv
    split at hv
    · cases hv
      exact .inr (hreceiver.mono grows)
    · exact .inl hv
  · exact .inl
  · intro other f hother
    rw [Store.origin?_put, Store.origin?_newScope] at hother
    split at hother
    · cases hother
    · exact .inl hother
  · intro other m hother
    rw [Store.origin?_put, Store.origin?_newScope, hnew] at hother
    rw [Store.cell?_put _ hlt]
    split at hother
    · next hsame =>
      cases hother
      exact .inr ⟨b, hb, hsame.symm, rfl, if_pos ⟨hsame.symm, rfl⟩⟩
    · next hother' =>
      refine .inl ⟨hother, ?_⟩
      rw [if_neg fun hsame => hother' hsame.1.symm, Store.cell?_newScope]

end Store.Faithful

/-! ### Steps of evaluation -/

open Eval

/-- The outcome of something that was begun in the store `s`: the store has grown and is faithful, and a value
    has the property `Q`. -/
def Keeps {α : Type} (bound : Binding → Prop) (s : Store) (Q : α → Store → Prop) :
    EStateM.Result Halt World α → Prop
  | .ok a w => w.store.Faithful bound ∧ s.Grows w.store ∧ Q a w.store
  | .error _ w => w.store.Faithful bound ∧ s.Grows w.store

namespace Keeps

variable {bound : Binding → Prop} {find : Finder} {s : Store} {w : World} {α β : Type}
  {Q : α → Store → Prop} {R : β → Store → Prop}

theorem ok (faithful : w.store.Faithful bound) {a : α} (h : Q a w.store) :
    Keeps bound w.store Q (.ok a w) :=
  ⟨faithful, .refl _, h⟩

theorem error (faithful : w.store.Faithful bound) (e : Halt) :
    Keeps bound w.store Q (.error e w) :=
  ⟨faithful, .refl _⟩

theorem fail (faithful : w.store.Faithful bound) (cause : RuntimeError) :
    Keeps bound w.store Q (Eval.fail cause w) :=
  error faithful _

/-- An outcome that began in a store which had grown before. -/
theorem after {t : Store} {r : EStateM.Result Halt World α} (grows : s.Grows t)
    (h : Keeps bound t Q r) : Keeps bound s Q r := by
  cases r with
  | ok a w => exact ⟨h.1, grows.trans h.2.1, h.2.2⟩
  | error e w => exact ⟨h.1, grows.trans h.2⟩

theorem bind {p : Eval α} {f : α → Eval β} (h : Keeps bound s Q (p w))
    (hf : ∀ a w', p w = .ok a w' → w'.store.Faithful bound → s.Grows w'.store → Q a w'.store →
      Keeps bound w'.store R (f a w')) : Keeps bound s R ((p >>= f) w) := by
  cases hp : p w with
  | error e w' =>
      rw [hp] at h
      rw [Eval.bind_of_error hp]
      exact h
  | ok a w' =>
      rw [hp] at h
      obtain ⟨faithful, grows, hQ⟩ := h
      rw [Eval.bind_of_ok hp]
      exact (hf a w' hp faithful grows hQ).after grows

/-- What is known of an outcome that is a value. -/
theorem of_eq_ok {r : EStateM.Result Halt World α} (h : Keeps bound s Q r) {a : α}
    (done : r = .ok a w) : w.store.Faithful bound ∧ s.Grows w.store ∧ Q a w.store := by
  rw [done] at h
  exact h

theorem read (faithful : w.store.Faithful bound) (scope : ScopeId) (name : String) (id : NodeId) :
    Keeps bound w.store (fun v t => v.Faithful t) (Eval.read find scope name id w) := by
  unfold Eval.read
  split
  · next v hv =>
    obtain ⟨target, _, hcell⟩ := Option.bind_eq_some_iff.1 hv
    exact .ok faithful (faithful.cells hcell)
  · exact .error faithful _

theorem write (faithful : w.store.Faithful bound) (scope : ScopeId) {target : Variable} {value : Value}
    (hname : target.name ≠ "this") (hvalue : value.Faithful w.store) :
    Keeps bound w.store (fun _ _ => True) (Eval.write find scope target value w) := by
  unfold Eval.write
  split
  · exact ⟨faithful.put _ hname hvalue, .put _ _ _ _, trivial⟩
  · exact .error faithful _

theorem define (faithful : w.store.Faithful bound) (scope : ScopeId) {name : String} {value : Value}
    (hname : name ≠ "this") (hvalue : value.Faithful w.store) :
    Keeps bound w.store (fun _ _ => True) (Eval.define scope name value w) :=
  ⟨faithful.put scope hname hvalue, .put w.store scope name value, trivial⟩

theorem defineAll (scope : ScopeId) (cells : List (String × Value)) (faithful : w.store.Faithful bound)
    (names : ∀ c ∈ cells, c.1 ≠ "this") (values : ∀ c ∈ cells, c.2.Faithful w.store) :
    Keeps bound w.store (fun _ _ => True) (Eval.defineAll scope cells w) := by
  induction cells generalizing w with
  | nil => exact .ok faithful trivial
  | cons c rest ih =>
      obtain ⟨name, value⟩ := c
      apply Keeps.bind (define faithful scope (names _ List.mem_cons_self) (values _ List.mem_cons_self))
      intro _ w' _ faithful' grows _
      apply ih faithful'
      · exact fun c hc => names c (List.mem_cons_of_mem _ hc)
      · exact fun c hc => (values c (List.mem_cons_of_mem _ hc)).mono grows

/-- A block or a call has a scope in which no method was bound. -/
theorem newScope (faithful : w.store.Faithful bound) {origin : Origin} (parent : ScopeId)
    (plain : ∀ m, origin ≠ .binding m) (admits : ∀ f, origin = .call f → w.store.Admits parent f) :
    Keeps bound w.store (fun inner t => t.Plain inner) (Eval.newScope origin parent w) := by
  refine ⟨faithful.newScope parent plain admits, .newScope w.store origin (some parent), origin, ?_, plain⟩
  exact (Store.origin?_newScope w.store origin (some parent) _).trans (if_pos rfl)

theorem newBlock (faithful : w.store.Faithful bound) (body : List Stmt) (parent : ScopeId) :
    Keeps bound w.store (fun inner t => t.Plain inner) (Eval.newScope (.block body) parent w) := by
  apply newScope faithful parent
  · intro m hm
    cases hm
  · intro f hf
    cases hf

theorem newCall (faithful : w.store.Faithful bound) {f : Function} {parent : ScopeId}
    (admits : w.store.Admits parent f) :
    Keeps bound w.store (fun inner t => t.Plain inner) (Eval.newScope (.call f) parent w) := by
  apply newScope faithful parent
  · intro m hm
    cases hm
  · intro other hother
    cases hother
    exact admits

theorem newIdentity (faithful : w.store.Faithful bound) :
    Keeps bound w.store (fun _ _ => True) (Eval.newIdentity w) :=
  ⟨faithful.newIdentity, .newIdentity w.store, trivial⟩

theorem newObject (faithful : w.store.Faithful bound) :
    Keeps bound w.store (fun _ _ => True) (Eval.newObject w) :=
  ⟨faithful.newObject, .newObject w.store, trivial⟩

theorem setField (faithful : w.store.Faithful bound) (object : ObjectId) (name : String) {value : Value}
    (hvalue : value.Faithful w.store) :
    Keeps bound w.store (fun _ _ => True) (Eval.setField object name value w) :=
  ⟨faithful.setField object name hvalue, .setField w.store object name value, trivial⟩

theorem newClosure (faithful : w.store.Faithful bound) {f : Function} {scope : ScopeId}
    (hnames : "this" ∉ f.names) (admits : w.store.Admits scope f) :
    Keeps bound w.store (fun c t => (Value.closure c).Faithful t) (Eval.newClosure f scope w) := by
  apply Keeps.bind (newIdentity faithful)
  intro identity w' _ faithful' grows _
  exact .ok faithful' ⟨hnames, admits.mono grows⟩

/-- Binding a method. -/
theorem bindMethod (faithful : w.store.Faithful bound) {c : Class} {object : ObjectId} {m : Function}
    (hbound : ∀ closure w', Eval.bind c m (.object c object) w = .ok closure w' →
      bound ⟨c, object, m, closure.scope⟩)
    (hreceiver : (Value.object c object).Faithful w.store) (hnames : "this" ∉ m.names) :
    Keeps bound w.store (fun bound t => (Value.closure bound).Faithful t)
      (Eval.bind c m (.object c object) w) := by
  let b : Binding := ⟨c, object, m, ⟨w.store.scopes.size⟩⟩
  let opened := (w.store.newScope (.binding m) (some c.scope)).2
  have hfaithful : (opened.put b.scope "this" b.receiver).Faithful bound :=
    faithful.bind (b := b) (hbound _ _ rfl) rfl c.scope hreceiver
  have grows : w.store.Grows (opened.put b.scope "this" b.receiver) :=
    (Store.Grows.newScope w.store (.binding m) (some c.scope)).trans (.put _ _ _ _)
  have horigin : (opened.put b.scope "this" b.receiver).origin? b.scope = some (.binding m) := by
    rw [Store.origin?_put, Store.origin?_newScope]
    exact if_pos rfl
  have hclosure := newClosure (w := { w with store := opened.put b.scope "this" b.receiver })
    hfaithful hnames ⟨_, horigin, fun other hother => Origin.binding.inj hother⟩
  exact hclosure.after grows

/-- A member of an instance. Only a method that no field hides is bound. -/
theorem property (faithful : w.store.Faithful bound) {value : Value} (hvalue : value.Faithful w.store)
    (name : String) (hbound : ∀ c object m, value = .object c object →
      (w.store.fields object)[name]? = none → c.methods[name]? = some m →
        ∀ closure w', Eval.bind c m (.object c object) w = .ok closure w' →
          bound ⟨c, object, m, closure.scope⟩) :
    Keeps bound w.store (fun v t => v.Faithful t) (Eval.property value name w) := by
  cases value with
  | object c object =>
      rw [Eval.property, Eval.get_bind]
      cases hfield : (w.store.fields object)[name]? with
      | some value => exact .ok faithful (faithful.fields hfield)
      | none =>
          cases hmethod : c.methods[name]? with
          | none => exact .fail faithful _
          | some m =>
              have hm := hbound c object m rfl hfield hmethod
              apply Keeps.bind (bindMethod faithful hm hvalue (hvalue name m hmethod))
              intro closure w' _ faithful' _ hclosure
              exact .ok faithful' hclosure
  | _ => exact .fail faithful _

theorem ofExcept (faithful : w.store.Faithful bound) {r : Except RuntimeError Value}
    (h : ∀ v, r = .ok v → v.Faithful w.store) :
    Keeps bound w.store (fun v t => v.Faithful t) (Eval.ofExcept r w) := by
  cases r with
  | ok v => exact .ok faithful (h v rfl)
  | error cause => exact .fail faithful cause

/-- Operators give values that are no functions. -/
theorem binary (faithful : w.store.Faithful bound) (op : BinaryOp) (a b : Value) :
    Keeps bound w.store (fun v t => v.Faithful t) (Eval.ofExcept (Operators.binary op a b) w) := by
  apply ofExcept faithful
  intro v hv
  unfold Operators.binary at hv
  split at hv
  case h_4 =>
    unfold Operators.arithmetic at hv
    split at hv
    case h_4 | h_5 =>
      split at hv
      · cases hv
      · cases hv
        trivial
    all_goals
      cases hv
      trivial
  case h_5 => cases hv
  all_goals
    cases hv
    trivial

theorem unary (faithful : w.store.Faithful bound) (op : UnaryOp) (a : Value) :
    Keeps bound w.store (fun v t => v.Faithful t) (Eval.ofExcept (Operators.unary op a) w) := by
  apply ofExcept faithful
  intro v hv
  unfold Operators.unary at hv
  split at hv
  · cases hv
    trivial
  · cases hv
    trivial
  · cases hv

theorem callBuiltin (faithful : w.store.Faithful bound) (f : Builtin) (args : List Value) :
    Keeps bound w.store (fun v t => v.Faithful t) (Eval.callBuiltin f args w) := by
  cases f with
  | print =>
      have hemit : ∀ function text, Keeps bound w.store (fun _ _ => True)
          (Eval.emit function text w) := by
        intro function text
        simp only [Eval.emit]
        split
        · exact ⟨faithful, .refl _, trivial⟩
        · exact ⟨faithful, .refl _⟩
      exact (hemit _ _).bind fun _ w' _ faithful' _ _ => .ok faithful' trivial

end Keeps

end Kiln
