/-
Module: Kiln.Proofs.Frames.Captures
Purpose: Scopes that nothing captures. Functions, classes and bound methods remember the scope in which they
  were made, so that a scope outlives its call only where something was made in it. The scope of a call whose
  function has no function and no class in its body is private, and so are those of the blocks inside it; all
  others are exposed. A store is discreet if whatever can still be called was made in an exposed scope. The
  way outward from an exposed scope never leads into a private one.
Main exports: Stmt.flatAll, Function.flat, Store.Exposed, Store.Private, Store.Suits, Value.Discreet,
  Store.Discreet, Store.clear_of_found, Store.Guarded, Guards, Guards.bind
-/
import Kiln.Proofs.Evaluation.Operands
import Kiln.Proofs.Evaluation.Safe

namespace Kiln

/-! ### Code without functions and classes -/

mutual

/-- An expression without functions, at any depth. -/
def Expr.flat : Expr → Bool
  | .lambda _ => false
  | .binary _ left right | .logical _ left right => left.flat && right.flat
  | .unary _ operand => operand.flat
  | .member object _ => object.flat
  | .call callee args => callee.flat && Expr.flatAll args
  | _ => true

/-- Expressions without functions, at any depth. -/
def Expr.flatAll : List Expr → Bool
  | [] => true
  | e :: rest => e.flat && Expr.flatAll rest

end

mutual

/-- A statement without functions and classes, at any depth. -/
def Stmt.flat : Stmt → Bool
  | .function _ | .classDecl _ _ => false
  | .expr e => e.flat
  | .declare _ value | .assign _ value => value.flat
  | .update _ _ => true
  | .setMember object _ value => object.flat && value.flat
  | .block body => Stmt.flatAll body
  | .ifElse test thenBranch none => test.flat && thenBranch.flat
  | .ifElse test thenBranch (some elseBranch) => test.flat && (thenBranch.flat && elseBranch.flat)
  | .whileLoop test body => test.flat && body.flat
  | .ret none => true
  | .ret (some value) => value.flat

/-- Statements without functions and classes, at any depth. -/
def Stmt.flatAll : List Stmt → Bool
  | [] => true
  | s :: rest => s.flat && Stmt.flatAll rest

end

/-- A function whose body has no functions and no classes in it, at any depth. -/
def Function.flat (f : Function) : Bool := Stmt.flatAll f.body

/-! ### Exposed and private scopes -/

namespace Store

/-- Functions and classes may be made in the scope: it was there before the program, or a method was bound
    there, or it is that of a call whose function has functions or classes in it, or of a block inside such
    a scope. -/
inductive Exposed (s : Store) : ScopeId → Prop where
  | outside {scope : ScopeId} (opened : s.origin? scope = some .outside) : Exposed s scope
  | binding {scope : ScopeId} {m : Function} (opened : s.origin? scope = some (.binding m)) :
      Exposed s scope
  | call {scope : ScopeId} {f : Function} (opened : s.origin? scope = some (.call f))
      (nested : f.flat = false) : Exposed s scope
  | block {scope outer : ScopeId} {body : List Stmt} (opened : s.origin? scope = some (.block body))
      (around : s.parent? scope = some outer) (h : Exposed s outer) : Exposed s scope

/-- The scope is that of a call whose function has no functions and no classes in it, or of a block inside such
    a scope. It was opened when there were `first` scopes already, and so were those between it and the call. -/
inductive Private (s : Store) (first : Nat) : ScopeId → Prop where
  | call {scope : ScopeId} {f : Function} (opened : s.origin? scope = some (.call f))
      (flat : f.flat = true) (late : first ≤ scope.index) : Private s first scope
  | block {scope outer : ScopeId} {body : List Stmt} (opened : s.origin? scope = some (.block body))
      (around : s.parent? scope = some outer) (h : Private s first outer) (late : first ≤ scope.index) :
      Private s first scope

variable {s t : Store} {first first' : Nat} {scope outer target : ScopeId}

theorem Exposed.mono (grows : s.Grows t) (h : s.Exposed scope) : t.Exposed scope := by
  induction h with
  | outside opened => exact .outside (grows.origin opened)
  | binding opened => exact .binding (grows.origin opened)
  | call opened nested => exact .call (grows.origin opened) nested
  | block opened around _ ih => exact .block (grows.origin opened) (grows.parent around) ih

theorem Private.mono (grows : s.Grows t) (hle : first' ≤ first) (h : s.Private first scope) :
    t.Private first' scope := by
  induction h with
  | call opened flat late => exact .call (grows.origin opened) flat (Nat.le_trans hle late)
  | block opened around _ late ih =>
      exact .block (grows.origin opened) (grows.parent around) ih (Nat.le_trans hle late)

theorem Private.late (h : s.Private first scope) : first ≤ scope.index := by
  cases h with
  | call _ _ late => exact late
  | block _ _ _ late => exact late

theorem Private.lt_size (h : s.Private first scope) : scope.index < s.scopes.size := by
  cases h with
  | call opened => exact lt_size_of_origin? opened
  | block opened => exact lt_size_of_origin? opened

/-- No scope is both. -/
theorem Private.not_exposed (h : s.Private first scope) : ¬s.Exposed scope := by
  induction h with
  | call opened flat _ =>
      intro exposed
      cases exposed with
      | outside opened' | binding opened' => cases opened.symm.trans opened'
      | call opened' nested =>
          cases opened.symm.trans opened'
          rw [flat] at nested
          cases nested
      | block opened' => cases opened.symm.trans opened'
  | block opened around _ _ ih =>
      intro exposed
      cases exposed with
      | outside opened' | binding opened' | call opened' => cases opened.symm.trans opened'
      | block _ around' h =>
          cases around.symm.trans around'
          exact ih h

/-- Code that is executed in a private scope has no functions and no classes in it. -/
def Suits (s : Store) (first : Nat) (scope : ScopeId) (flat : Bool) : Prop :=
  s.Exposed scope ∨ s.Private first scope ∧ flat = true

variable {flat flat' : Bool}

theorem Suits.mono (grows : s.Grows t) (h : s.Suits first scope flat) : t.Suits first scope flat :=
  Or.imp (.mono grows) (And.imp_left (.mono grows (Nat.le_refl first))) h

theorem Suits.imp (h : s.Suits first scope flat) (part : flat = true → flat' = true) :
    s.Suits first scope flat' :=
  Or.imp_right (And.imp_right part) h

theorem Suits.left (h : s.Suits first scope (flat && flat')) : s.Suits first scope flat :=
  h.imp fun hflat => (Bool.and_eq_true_iff.1 hflat).1

theorem Suits.right (h : s.Suits first scope (flat && flat')) : s.Suits first scope flat' :=
  h.imp fun hflat => (Bool.and_eq_true_iff.1 hflat).2

/-- Whenever the scope was opened. -/
theorem Suits.any (h : s.Suits first scope flat) : s.Suits 0 scope flat :=
  Or.imp_right (And.imp_left (.mono (.refl s) (Nat.zero_le first))) h

/-- Functions are made in exposed scopes only. -/
theorem Suits.exposed (h : s.Suits first scope false) : s.Exposed scope :=
  Or.resolve_right h fun hflat => by cases hflat.2

/-- The scope is exposed, or was not there when there were `first` scopes. -/
def Clear (s : Store) (first : Nat) (scope : ScopeId) : Prop := s.Exposed scope ∨ first ≤ scope.index

theorem Clear.mono (grows : s.Grows t) (h : s.Clear first scope) : t.Clear first scope :=
  h.imp_left (.mono grows)

theorem Suits.clear (h : s.Suits first scope flat) : s.Clear first scope :=
  Or.imp_right (fun hp => hp.1.late) h

/-- An older private scope is not clear. -/
theorem Clear.ne (h : s.Clear first scope) (hlt : target.index < first) (hprivate : s.Private 0 target) :
    scope ≠ target := by
  rintro rfl
  rcases h with exposed | late
  · exact hprivate.not_exposed exposed
  · exact Nat.not_le_of_lt hlt late

end Store

/-! ### Discreet stores -/

/-- What can be called through the value was made in exposed scopes. -/
def Value.Discreet (s : Store) : Value → Prop
  | .closure c => s.Exposed c.scope
  | .classValue c | .object c _ => s.Exposed c.scope
  | _ => True

theorem Value.Discreet.mono {s t : Store} (grows : s.Grows t) {v : Value} (h : v.Discreet s) :
    v.Discreet t := by
  cases v with
  | closure c => exact Store.Exposed.mono grows h
  | classValue c => exact Store.Exposed.mono grows h
  | object c id => exact Store.Exposed.mono grows h
  | _ => trivial

theorem Value.Discreet.of_isPlain {s : Store} {v : Value} (h : v.isPlain = true) : v.Discreet s := by
  cases v with
  | closure _ | classValue _ | object _ _ => cases h
  | _ => trivial

/-- The same of several values. -/
def Value.AllDiscreet (s : Store) (vs : List Value) : Prop := ∀ v ∈ vs, v.Discreet s

theorem Value.AllDiscreet.mono {s t : Store} (grows : s.Grows t) {vs : List Value}
    (h : Value.AllDiscreet s vs) : Value.AllDiscreet t vs :=
  fun v hv => (h v hv).mono grows

/-- Nothing that the store remembers was made in a private scope, and only blocks lie in private scopes. -/
structure Store.Discreet (globals : ScopeId) (s : Store) : Prop where
  globals : s.Exposed globals
  cells : ∀ {scope : ScopeId} {name : String} {v : Value}, s.cell? scope name = some v → v.Discreet s
  fields : ∀ {object : ObjectId} {name : String} {v : Value},
    (s.fields object)[name]? = some v → v.Discreet s
  around : ∀ {scope outer : ScopeId}, s.parent? scope = some outer →
    s.Exposed outer ∨ ∃ body, s.origin? scope = some (.block body)

namespace Store

variable {globals : ScopeId} {s t : Store} {first : Nat} {scope outer target : ScopeId}

/-! ### Ways outward -/

theorem Exposed.outward (h : s.Exposed scope) (discreet : s.Discreet globals)
    (around : s.parent? scope = some outer) : s.Exposed outer := by
  rcases discreet.around around with exposed | ⟨body, hblock⟩
  · exact exposed
  · cases h with
    | outside opened | binding opened | call opened => cases hblock.symm.trans opened
    | block _ around' houter =>
        cases around.symm.trans around'
        exact houter

/-- From a private scope the way outward leads through private ones to exposed ones. -/
theorem Private.outward (h : s.Private first scope) (discreet : s.Discreet globals)
    (around : s.parent? scope = some outer) : s.Exposed outer ∨ s.Private first outer := by
  cases h with
  | call opened =>
      rcases discreet.around around with exposed | ⟨body, hblock⟩
      · exact .inl exposed
      · cases hblock.symm.trans opened
  | block _ around' houter =>
      cases around.symm.trans around'
      exact .inr houter

theorem clear_of_hop? (discreet : s.Discreet globals) {k : Nat}
    (h : s.Exposed scope ∨ s.Private first scope) (hk : s.hop? scope k = some target) :
    s.Clear first target := by
  induction k generalizing scope with
  | zero =>
      cases hk
      exact h.imp_right Private.late
  | succ k ih =>
      obtain ⟨outer, around, hrest⟩ := Option.bind_eq_some_iff.1 hk
      apply ih _ hrest
      rcases h with exposed | hprivate
      · exact .inl (exposed.outward discreet around)
      · exact hprivate.outward discreet around

/-- A variable that is found from a scope belongs to the call to which the scope belongs, or to an exposed
    scope. -/
theorem clear_of_found (discreet : s.Discreet globals) {flat : Bool} (suits : s.Suits first scope flat)
    {a : Annotations} {name : String} {id : NodeId}
    (found : Finder.lexical globals a s scope name id = some target) : s.Clear first target := by
  unfold Finder.lexical at found
  split at found
  · exact clear_of_hop? discreet (Or.imp_right And.left suits) (ownerAt?_eq_some_iff.1 found).1
  · obtain ⟨k, hk⟩ := exists_hop?_of_owner? found
    exact clear_of_hop? discreet (.inl discreet.globals) hk

/-! ### Operations on discreet stores -/

namespace Discreet

/-- A store that has grown is discreet if what is new in it is. -/
theorem of_grows (h : s.Discreet globals) (grows : s.Grows t)
    (cells : ∀ {scope : ScopeId} {name : String} {v : Value}, t.cell? scope name = some v →
      s.cell? scope name = some v ∨ v.Discreet t)
    (fields : ∀ {object : ObjectId} {name : String} {v : Value}, (t.fields object)[name]? = some v →
      (s.fields object)[name]? = some v ∨ v.Discreet t)
    (around : ∀ {scope outer : ScopeId}, t.parent? scope = some outer →
      s.parent? scope = some outer ∨ t.Exposed outer ∨ ∃ body, t.origin? scope = some (.block body)) :
    t.Discreet globals where
  globals := h.globals.mono grows
  cells hv := by
    rcases cells hv with hold | hnew
    · exact (h.cells hold).mono grows
    · exact hnew
  fields hv := by
    rcases fields hv with hold | hnew
    · exact (h.fields hold).mono grows
    · exact hnew
  around hscope := by
    rcases around hscope with hold | hnew
    · exact (h.around hold).imp (.mono grows) (.imp fun _ hblock => grows.origin hblock)
    · exact hnew

theorem put (h : s.Discreet globals) (scope : ScopeId) (name : String) {value : Value}
    (hvalue : value.Discreet s) : (s.put scope name value).Discreet globals := by
  have grows := Grows.put s scope name value
  by_cases hlt : scope.index < s.scopes.size
  · apply h.of_grows grows
    · intro other sought v hv
      rw [cell?_put s hlt] at hv
      split at hv
      · cases hv
        exact .inr (hvalue.mono grows)
      · exact .inl hv
    · exact .inl
    · intro other outer hother
      rw [parent?_put] at hother
      exact .inl hother
  · rw [put_of_size_le s (Nat.le_of_not_lt hlt)]
    exact h

/-- Only a block may be opened in a private scope. -/
theorem newScope (h : s.Discreet globals) {origin : Origin} {parent : ScopeId}
    (place : s.Exposed parent ∨ ∃ body, origin = .block body) :
    (s.newScope origin (some parent)).2.Discreet globals := by
  have grows := Grows.newScope s origin (some parent)
  apply h.of_grows grows
  · intro other sought v hv
    rw [cell?_newScope] at hv
    exact .inl hv
  · exact .inl
  · intro other outer hother
    rw [parent?_newScope] at hother
    split at hother
    · next hsame =>
      cases hother
      refine .inr (place.imp (.mono grows) ?_)
      rintro ⟨body, rfl⟩
      exact ⟨body, (origin?_newScope ..).trans (if_pos hsame)⟩
    · exact .inl hother

theorem newIdentity (h : s.Discreet globals) : s.newIdentity.2.Discreet globals :=
  h.of_grows (.newIdentity s) .inl .inl .inl

theorem newObject (h : s.Discreet globals) : s.newObject.2.Discreet globals := by
  apply h.of_grows (.newObject s) .inl _ .inl
  intro object sought v hv
  rw [fields_newObject] at hv
  exact .inl hv

theorem setField (h : s.Discreet globals) (object : ObjectId) (name : String) {value : Value}
    (hvalue : value.Discreet s) : (s.setField object name value).Discreet globals := by
  have grows := Grows.setField s object name value
  apply h.of_grows grows .inl _ .inl
  intro other sought v hv
  rcases s.eq_or_eq_of_fields_setField hv with rfl | hold
  · exact .inr (hvalue.mono grows)
  · exact .inl hold

end Discreet

/-! ### Frames -/

/-- The second store is discreet and has grown from the first one. Of the first `first` scopes, the private ones
    have the variables that they had. -/
structure Guarded (globals : ScopeId) (first : Nat) (s t : Store) : Prop where
  discreet : t.Discreet globals
  grows : s.Grows t
  frame : ∀ {scope : ScopeId}, scope.index < first → s.Private 0 scope →
    ∀ name, t.cell? scope name = s.cell? scope name

namespace Guarded

variable {u : Store}

theorem of_cells (discreet : t.Discreet globals) (grows : s.Grows t)
    (same : ∀ scope name, t.cell? scope name = s.cell? scope name) : Guarded globals first s t :=
  ⟨discreet, grows, fun _ _ => same _⟩

theorem refl (discreet : s.Discreet globals) : Guarded globals first s s :=
  of_cells discreet (.refl s) fun _ _ => rfl

theorem trans (h : Guarded globals first s t) (h' : Guarded globals first t u) :
    Guarded globals first s u := by
  refine ⟨h'.discreet, h.grows.trans h'.grows, fun hlt hprivate name => ?_⟩
  have hlater := hprivate.mono h.grows (Nat.le_refl 0)
  rw [h'.frame hlt hlater name, h.frame hlt hprivate name]

/-- Writing to a scope that is exposed or new. -/
theorem put (discreet : s.Discreet globals) (hclear : s.Clear first scope) (name : String) {value : Value}
    (hvalue : value.Discreet s) : Guarded globals first s (s.put scope name value) := by
  refine ⟨discreet.put scope name hvalue, .put .., fun {other} hlt hprivate sought => ?_⟩
  by_cases hscope : scope.index < s.scopes.size
  · rw [cell?_put s hscope, if_neg fun hsame => hclear.ne hlt hprivate hsame.1]
  · rw [put_of_size_le s (Nat.le_of_not_lt hscope)]

end Guarded

end Store

/-! ### Steps of evaluation -/

open Eval

/-- The scope that is opened comes after all others, where it was asked for. -/
theorem Eval.eq_of_newScope {origin : Origin} {parent scope : ScopeId} {w w' : World}
    (opened : Eval.newScope origin parent w = .ok scope w') : scope = ⟨w.store.scopes.size⟩ ∧
      w'.store.origin? scope = some origin ∧ w'.store.parent? scope = some parent := by
  cases opened
  refine ⟨rfl, ?_, ?_⟩
  · exact (Store.origin?_newScope ..).trans (if_pos rfl)
  · exact (Store.parent?_newScope ..).trans (if_pos rfl)

/-- The outcome of something that was begun in the store `s`: the store is guarded, and a value has the
    property `Q`. -/
def Guards {α : Type} (globals : ScopeId) (first : Nat) (s : Store) (Q : α → Store → Prop) :
    EStateM.Result Halt World α → Prop
  | .ok a w => s.Guarded globals first w.store ∧ Q a w.store
  | .error _ w => s.Guarded globals first w.store

namespace Guards

variable {globals : ScopeId} {first : Nat} {s : Store} {w : World} {α β : Type}
  {Q : α → Store → Prop} {R : β → Store → Prop}

theorem ok (discreet : w.store.Discreet globals) {a : α} (h : Q a w.store) :
    Guards globals first w.store Q (.ok a w) :=
  ⟨.refl discreet, h⟩

theorem error (discreet : w.store.Discreet globals) (e : Halt) :
    Guards globals first w.store Q (.error e w) :=
  .refl discreet

/-- An outcome that began in a store which had been guarded before. -/
theorem after {t : Store} {r : EStateM.Result Halt World α} (guarded : s.Guarded globals first t)
    (h : Guards globals first t Q r) : Guards globals first s Q r := by
  cases r with
  | ok a w => exact ⟨guarded.trans h.1, h.2⟩
  | error e w => exact guarded.trans h

theorem bind {p : Eval α} {f : α → Eval β} (h : Guards globals first s Q (p w))
    (hf : ∀ a w', p w = .ok a w' → s.Guarded globals first w'.store → Q a w'.store →
      Guards globals first w'.store R (f a w')) : Guards globals first s R ((p >>= f) w) := by
  cases hp : p w with
  | error e w' =>
      rw [hp] at h
      rw [Eval.bind_of_error hp]
      exact h
  | ok a w' =>
      rw [hp] at h
      rw [Eval.bind_of_ok hp]
      exact (hf a w' hp h.1 h.2).after h.1

/-- What is known of an outcome that is a value. -/
theorem of_eq_ok {r : EStateM.Result Halt World α} (h : Guards globals first s Q r) {a : α}
    (done : r = .ok a w) : s.Guarded globals first w.store ∧ Q a w.store := by
  rw [done] at h
  exact h

theorem read (discreet : w.store.Discreet globals) (find : Finder) (scope : ScopeId) (name : String)
    (id : NodeId) :
    Guards globals first w.store (fun v t => v.Discreet t) (Eval.read find scope name id w) := by
  unfold Eval.read
  split
  · next v hv =>
    obtain ⟨target, _, hcell⟩ := Option.bind_eq_some_iff.1 hv
    exact .ok discreet (discreet.cells hcell)
  · exact .error discreet _

theorem write (discreet : w.store.Discreet globals) {a : Annotations} {scope : ScopeId} {flat : Bool}
    (suits : w.store.Suits first scope flat) (target : Variable) {value : Value}
    (hvalue : value.Discreet w.store) :
    Guards globals first w.store (fun _ _ => True)
      (Eval.write (.lexical globals a) scope target value w) := by
  unfold Eval.write
  split
  · next owner found =>
    exact ⟨.put discreet (Store.clear_of_found discreet suits found) target.name hvalue, trivial⟩
  · exact .error discreet _

theorem define (discreet : w.store.Discreet globals) {scope : ScopeId}
    (hclear : w.store.Clear first scope) (name : String) {value : Value} (hvalue : value.Discreet w.store) :
    Guards globals first w.store (fun _ _ => True) (Eval.define scope name value w) :=
  ⟨.put discreet hclear name hvalue, trivial⟩

theorem defineAll {scope : ScopeId} {cells : List (String × Value)} (discreet : w.store.Discreet globals)
    (hclear : w.store.Clear first scope) (values : ∀ c ∈ cells, c.2.Discreet w.store) :
    Guards globals first w.store (fun _ _ => True) (Eval.defineAll scope cells w) := by
  induction cells generalizing w with
  | nil => exact .ok discreet trivial
  | cons c rest ih =>
      apply Guards.bind (define discreet hclear c.1 (values c List.mem_cons_self))
      intro _ w' _ guarded _
      apply ih guarded.discreet (hclear.mono guarded.grows)
      exact fun other hother => (values other (List.mem_cons_of_mem c hother)).mono guarded.grows

/-- The new scope comes after all others. -/
theorem newScope (discreet : w.store.Discreet globals) (old : first ≤ w.store.scopes.size)
    {origin : Origin} {parent : ScopeId}
    (place : w.store.Exposed parent ∨ ∃ body, origin = .block body) :
    Guards globals first w.store
      (fun inner t => t.origin? inner = some origin ∧ t.parent? inner = some parent ∧ first ≤ inner.index)
      (Eval.newScope origin parent w) := by
  obtain ⟨_, opened, around⟩ := Eval.eq_of_newScope (rfl : Eval.newScope origin parent w = _)
  have guarded : w.store.Guarded globals first (w.store.newScope origin (some parent)).2 :=
    .of_cells (discreet.newScope place) (.newScope ..) fun _ _ => Store.cell?_newScope ..
  exact ⟨guarded, opened, around, old⟩

theorem newIdentity (discreet : w.store.Discreet globals) :
    Guards globals first w.store (fun _ _ => True) (Eval.newIdentity w) :=
  ⟨.of_cells discreet.newIdentity (.newIdentity _) fun _ _ => rfl, trivial⟩

theorem newObject (discreet : w.store.Discreet globals) :
    Guards globals first w.store (fun _ _ => True) (Eval.newObject w) :=
  ⟨.of_cells discreet.newObject (.newObject _) fun _ _ => rfl, trivial⟩

theorem setField (discreet : w.store.Discreet globals) (object : ObjectId) (name : String) {value : Value}
    (hvalue : value.Discreet w.store) :
    Guards globals first w.store (fun _ _ => True) (Eval.setField object name value w) :=
  ⟨.of_cells (discreet.setField object name hvalue) (.setField ..) fun _ _ => rfl, trivial⟩

theorem newClosure (discreet : w.store.Discreet globals) (f : Function) {scope : ScopeId}
    (exposed : w.store.Exposed scope) :
    Guards globals first w.store (fun c t => (Value.closure c).Discreet t) (Eval.newClosure f scope w) := by
  apply Guards.bind (newIdentity discreet)
  intro identity w' _ guarded _
  exact .ok guarded.discreet (exposed.mono guarded.grows)

/-- A bound method was made in the scope of its binding, which is exposed. -/
theorem bindMethod (discreet : w.store.Discreet globals) (old : first ≤ w.store.scopes.size) {c : Class}
    (exposed : w.store.Exposed c.scope) (method : Function) {receiver : Value}
    (hreceiver : receiver.Discreet w.store) :
    Guards globals first w.store (fun bound t => (Value.closure bound).Discreet t)
      (Eval.bind c method receiver w) := by
  apply Guards.bind (newScope discreet old (.inl exposed))
  rintro scope w₁ _ guarded₁ ⟨opened, _, _⟩
  have hscope : w₁.store.Exposed scope := .binding opened
  apply Guards.bind (define guarded₁.discreet (.inl hscope) "this" (hreceiver.mono guarded₁.grows))
  intro _ w₂ _ guarded₂ _
  exact newClosure guarded₂.discreet method (hscope.mono guarded₂.grows)

theorem property (discreet : w.store.Discreet globals) (old : first ≤ w.store.scopes.size) {value : Value}
    (hvalue : value.Discreet w.store) (name : String) :
    Guards globals first w.store (fun v t => v.Discreet t) (Eval.property value name w) := by
  cases value with
  | object c object =>
      rw [Eval.property, Eval.get_bind]
      cases hfield : (w.store.fields object)[name]? with
      | some value => exact .ok discreet (discreet.fields hfield)
      | none =>
          cases c.methods[name]? with
          | none => exact .error discreet _
          | some method =>
              apply Guards.bind (bindMethod discreet old hvalue method hvalue)
              intro closure w' _ guarded hclosure
              exact .ok guarded.discreet hclosure
  | _ => exact .error discreet _

/-- Operators give values that cannot be called. -/
theorem ofExcept (discreet : w.store.Discreet globals) {r : Except RuntimeError Value}
    (plain : ∀ v, r = .ok v → v.isPlain = true) :
    Guards globals first w.store (fun v t => v.Discreet t) (Eval.ofExcept r w) := by
  cases r with
  | ok v => exact .ok discreet (.of_isPlain (plain v rfl))
  | error cause => exact .error discreet _

theorem callBuiltin (discreet : w.store.Discreet globals) (f : Builtin) (args : List Value) :
    Guards globals first w.store (fun v t => v.Discreet t) (Eval.callBuiltin f args w) := by
  cases f with
  | print =>
      have hemit : ∀ function text, Guards globals first w.store (fun _ _ => True)
          (Eval.emit function text w) := by
        intro function text
        simp only [Eval.emit]
        split
        · exact ⟨.refl discreet, trivial⟩
        · exact .refl discreet
      exact (hemit _ _).bind fun _ w' _ guarded _ => .ok guarded.discreet trivial

end Guards

end Kiln
