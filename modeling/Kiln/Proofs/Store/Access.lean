/-
Module: Kiln.Proofs.Store.Access
Purpose: The two ways to a variable. A search goes outward from a scope to the closest one that has the
  variable; a jump goes a known number of scopes outward and does not search. In every store that can be
  built, a jump by the least distance at which the variable lies does what a search does, and a variable that
  lies at no distance is found in neither way. An assignment in either way changes one cell, which is seen
  exactly from the scopes that reach it.
Main exports: Store.Built, Store.HasAt, Store.Closest, Store.owner?_eq_some_iff, Store.Overwritten,
  Store.walking_agrees_with_jumping, Store.assignment_changes_one_cell
-/
import Kiln.Eval.Basic
import Kiln.Proofs.Store.Chains
import Mathlib.Order.Nat

namespace Kiln.Store

/-! ### Stores that can be built -/

/-- The stores that are reached from the empty one by opening scopes and by declaring and assigning variables, in
    any order. A scope is opened on its own, with what is built in, or inside one that exists. An assignment
    that fails leaves the store as it is, so that nothing is said of it here. -/
inductive Built : Store → Prop where
  | empty : Built .empty
  | outermost {s : Store} (h : Built s) (origin : Origin) : Built (s.newScope origin none).2
  | builtins {s : Store} (h : Built s) : Built s.newBuiltins.2
  | child {s : Store} (h : Built s) (origin : Origin) (parent : ScopeId)
      (there : parent.index < s.scopes.size) : Built (s.newScope origin (some parent)).2
  | define {s : Store} (h : Built s) (scope : ScopeId) (name : String) (value : Value) :
      Built (s.put scope name value)
  | assign {s t : Store} (h : Built s) {scope : ScopeId} {name : String} {value : Value}
      (done : s.assign? scope name value = some t) : Built t
  | assignAt {s t : Store} (h : Built s) {scope : ScopeId} {distance : Nat} {name : String}
      {value : Value} (done : s.assignAt? scope distance name value = some t) : Built t

/-- An assignment by search writes to the scope that the search finds. -/
theorem assign?_eq_some_iff {s t : Store} {scope : ScopeId} {name : String} {value : Value} :
    s.assign? scope name value = some t ↔
      ∃ target, s.owner? scope name = some target ∧ s.put target name value = t :=
  Option.map_eq_some_iff

/-- An assignment by a jump writes to the scope at that distance. -/
theorem assignAt?_eq_some_iff {s t : Store} {scope : ScopeId} {distance : Nat} {name : String}
    {value : Value} :
    s.assignAt? scope distance name value = some t ↔
      ∃ target, s.ownerAt? scope distance name = some target ∧ s.put target name value = t :=
  Option.map_eq_some_iff

theorem Outward.newBuiltins {s : Store} (hs : s.Outward) : s.newBuiltins.2.Outward := by
  have hidentity : s.newIdentity.2.Outward := hs
  have hscope : (s.newIdentity.2.newScope .outside none).2.Outward := by
    apply hidentity.newScope
    intro outer houter
    cases houter
  exact (hscope.put _ _ _).put _ _ _

/-- In a store that can be built every scope is older than the scopes inside it. -/
theorem Built.outward {s : Store} (h : s.Built) : s.Outward := by
  induction h with
  | empty =>
      intro scope outer houter
      simp [parent?, Store.empty] at houter
  | outermost _ origin ih =>
      apply ih.newScope
      intro outer houter
      cases houter
  | builtins _ ih => exact ih.newBuiltins
  | child _ origin parent there ih =>
      apply ih.newScope
      intro outer houter
      cases houter
      exact there
  | define _ scope name value ih => exact ih.put scope name value
  | assign _ done ih =>
      obtain ⟨target, _, rfl⟩ := assign?_eq_some_iff.1 done
      exact ih.put _ _ _
  | assignAt _ done ih =>
      obtain ⟨target, _, rfl⟩ := assignAt?_eq_some_iff.1 done
      exact ih.put _ _ _

/-! ### Distances of variables -/

/-- The scope that lies `distance` scopes further out has the variable. -/
def HasAt (s : Store) (scope : ScopeId) (name : String) (distance : Nat) : Prop :=
  ∃ target, s.hop? scope distance = some target ∧ s.defines target name = true

/-- Of all scopes from this one outward that have the variable, the target is the closest. -/
def Closest (s : Store) (scope : ScopeId) (name : String) (target : ScopeId) : Prop :=
  ∃ distance, s.hop? scope distance = some target ∧ IsLeast {k | s.HasAt scope name k} distance

variable {s t : Store} {scope target : ScopeId} {name : String} {d : Nat}

/-- No way outward comes back. -/
theorem Outward.hop?_ne_self (hs : s.Outward) (scope : ScopeId) (k : Nat) :
    s.hop? scope (k + 1) ≠ some scope := by
  intro hback
  have hle := hs.index_add_le hback
  omega

theorem Closest.defines (h : s.Closest scope name target) : s.defines target name = true := by
  obtain ⟨d, hd, ⟨owner, howner, hdefines⟩, _⟩ := h
  cases hd.symm.trans howner
  exact hdefines

/-- A search finds what lies at the least distance. -/
theorem Outward.owner?_of_closest (hs : s.Outward) (h : s.Closest scope name target) :
    s.owner? scope name = some target := by
  have hdefines := h.defines
  obtain ⟨d, hd, _, hleast⟩ := h
  rw [owner?_of_hop? hs hd]
  · exact owner?_of_defines hdefines
  · intro k hk inner hinner
    by_contra hthere
    have hle : d ≤ k := hleast ⟨inner, hinner, by simpa using hthere⟩
    exact Nat.not_le_of_lt hk hle

/-- A variable that lies at some distance lies at a least one. -/
theorem exists_closest (h : s.HasAt scope name d) : ∃ target, s.Closest scope name target := by
  classical
  have hexists : ∃ k, s.HasAt scope name k := ⟨d, h⟩
  obtain ⟨target, htarget, _⟩ := Nat.find_spec hexists
  exact ⟨target, Nat.find hexists, htarget, Nat.isLeast_find hexists⟩

theorem hasAt_of_owner? (h : s.owner? scope name = some target) : ∃ k, s.HasAt scope name k := by
  obtain ⟨k, hk⟩ := exists_hop?_of_owner? h
  exact ⟨k, target, hk, defines_of_owner? h⟩

/-- A search finds the closest scope that has the variable. -/
theorem Outward.owner?_eq_some_iff (hs : s.Outward) :
    s.owner? scope name = some target ↔ s.Closest scope name target := by
  constructor
  · intro hfound
    obtain ⟨k, hk⟩ := hasAt_of_owner? hfound
    obtain ⟨closest, hclosest⟩ := exists_closest hk
    cases hfound.symm.trans (hs.owner?_of_closest hclosest)
    exact hclosest
  · exact hs.owner?_of_closest

/-- A search finds nothing where no scope has the variable. -/
theorem owner?_eq_none (h : ∀ k, ¬s.HasAt scope name k) : s.owner? scope name = none := by
  cases hfound : s.owner? scope name with
  | none => rfl
  | some target =>
      obtain ⟨k, hk⟩ := hasAt_of_owner? hfound
      exact absurd hk (h k)

theorem ownerAt?_eq_none (h : ¬s.HasAt scope name d) : s.ownerAt? scope d name = none := by
  cases hfound : s.ownerAt? scope d name with
  | none => rfl
  | some target => exact absurd ⟨target, ownerAt?_eq_some_iff.1 hfound⟩ h

/-- A jump by the least distance finds what a search finds. -/
theorem Outward.owner?_eq_ownerAt? (hs : s.Outward) (h : IsLeast {k | s.HasAt scope name k} d) :
    ∃ target, s.owner? scope name = some target ∧ s.ownerAt? scope d name = some target := by
  obtain ⟨target, hd, hdefines⟩ := h.1
  have hclosest : s.Closest scope name target := ⟨d, hd, h⟩
  exact ⟨target, hs.owner?_of_closest hclosest, ownerAt?_eq_some_iff.2 ⟨hd, hdefines⟩⟩

/-! ### Searching and jumping -/

/-- The variable can neither be read nor written in this way. Both attempts name it in their failure and leave
    everything as it is. -/
def Unfound (find : Finder) (w : World) (scope : ScopeId) (name : String) (id : NodeId) : Prop :=
  Eval.read find scope name id w = .error (.failed (.undefinedVariable name id)) w ∧
    ∀ value, Eval.write find scope ⟨name, id⟩ value w =
      .error (.failed (.undefinedVariable name id)) w

theorem unfound_of_eq_none {find : Finder} {w : World} {id : NodeId}
    (h : find w.store scope name id = none) : Unfound find w scope name id := by
  constructor
  · simp [Eval.read, h]
  · intro value
    simp [Eval.write, h]

/-- In every store that can be built, searching for a variable and jumping to it agree. No scope lies inside
    itself. If the variable lies at some distance, then reading it and assigning to it by a jump of the least such
    distance does what the search does, and succeeds. If it lies at none, then the search fails and so does
    every jump, by whatever distance. -/
theorem walking_agrees_with_jumping {w : World} (built : w.store.Built) (scope : ScopeId) (name : String) :
    (∀ k, w.store.hop? scope (k + 1) ≠ some scope) ∧
    (∀ d, IsLeast {k | w.store.HasAt scope name k} d →
      (∃ v, w.store.get? scope name = some v ∧ w.store.getAt? scope d name = some v) ∧
      ∀ value, ∃ t, w.store.assign? scope name value = some t ∧
        w.store.assignAt? scope d name value = some t) ∧
    ((∀ k, ¬w.store.HasAt scope name k) →
      w.store.get? scope name = none ∧ (∀ d, w.store.getAt? scope d name = none) ∧
      (∀ value, w.store.assign? scope name value = none ∧
        ∀ d, w.store.assignAt? scope d name value = none) ∧
      ∀ id, Unfound .walking w scope name id ∧
        ∀ globals a d, a.get? id = some d → Unfound (.lexical globals a) w scope name id) := by
  have hs := built.outward
  constructor
  · exact hs.hop?_ne_self scope
  constructor
  · intro d hleast
    obtain ⟨target, hsearch, hjump⟩ := hs.owner?_eq_ownerAt? hleast
    obtain ⟨v, hv⟩ := Option.isSome_iff_exists.1 (defines_of_owner? hsearch)
    constructor
    · exact ⟨v, by rw [get?, hsearch, Option.bind_some, hv], by rw [getAt?, hjump, Option.bind_some, hv]⟩
    · intro value
      exact ⟨_, assign?_eq_some_iff.2 ⟨target, hsearch, rfl⟩, assignAt?_eq_some_iff.2 ⟨target, hjump, rfl⟩⟩
  · intro hnone
    have hsearch : w.store.owner? scope name = none := owner?_eq_none hnone
    have hjump : ∀ d, w.store.ownerAt? scope d name = none := fun d => ownerAt?_eq_none (hnone d)
    constructor
    · rw [get?, hsearch, Option.bind_none]
    constructor
    · intro d
      rw [getAt?, hjump d, Option.bind_none]
    constructor
    · intro value
      constructor
      · rw [assign?, hsearch, Option.map_none]
      · intro d
        rw [assignAt?, hjump d, Option.map_none]
    · intro id
      constructor
      · exact unfound_of_eq_none hsearch
      · intro globals a d hd
        apply unfound_of_eq_none
        rw [Finder.lexical, hd]
        exact hjump d

/-- Inside a global scope with a variable there is a scope with another variable of the same name, which has an
    empty scope inside it. Beside it there is a second empty scope. -/
def nested : Store :=
  let globals := (empty.newBuiltins.2.newScope .outside (some ⟨0⟩)).2.put ⟨1⟩ "a" (.number 1)
  let shadowing := (globals.newScope .outside (some ⟨1⟩)).2.put ⟨2⟩ "a" (.number 2)
  ((shadowing.newScope .outside (some ⟨2⟩)).2.newScope .outside (some ⟨1⟩)).2

theorem built_nested : nested.Built := by
  have globals := (Built.empty.builtins.child .outside ⟨0⟩ (by decide)).define ⟨1⟩ "a" (.number 1)
  have shadowing := (globals.child .outside ⟨1⟩ (by decide)).define ⟨2⟩ "a" (.number 2)
  exact (shadowing.child .outside ⟨2⟩ (by decide)).child .outside ⟨1⟩ (by decide)

theorem isLeast_nested : IsLeast {k | nested.HasAt ⟨3⟩ "a" k} 1 := by
  constructor
  · exact ⟨⟨2⟩, rfl, rfl⟩
  · intro k hk
    cases k with
    | zero =>
        obtain ⟨target, hhop, hdefines⟩ := hk
        cases hhop
        cases hdefines
    | succ k => exact Nat.succ_le_succ (Nat.zero_le k)

theorem not_hasAt_nested (k : Nat) : ¬nested.HasAt ⟨3⟩ "b" k := by
  rintro ⟨target, hhop, hdefines⟩
  match k with
  | 0 | 1 | 2 | 3 =>
    cases hhop
    cases hdefines
  | k + 4 => cases hhop

/-- A jump by one scope finds the inner variable, as a search does, and one by two scopes finds the outer one.
    A name that no scope has is found in no way. -/
theorem walking_agrees_with_jumping_of_nested :
    (∃ v, nested.get? ⟨3⟩ "a" = some v ∧ nested.getAt? ⟨3⟩ 1 "a" = some v) ∧
    nested.getAt? ⟨3⟩ 2 "a" = some (.number 1) ∧
    (∀ d, nested.getAt? ⟨3⟩ d "b" = none) ∧ ∀ id, Unfound .walking ⟨nested, default⟩ ⟨3⟩ "b" id := by
  have built : (World.mk nested default).store.Built := built_nested
  obtain ⟨_, hleast, _⟩ := walking_agrees_with_jumping built ⟨3⟩ "a"
  obtain ⟨_, _, hnone⟩ := walking_agrees_with_jumping built ⟨3⟩ "b"
  obtain ⟨_, hjump, _, hsteps⟩ := hnone not_hasAt_nested
  exact ⟨(hleast 1 isLeast_nested).1, rfl, hjump, fun id => (hsteps id).1⟩

/-! ### What an assignment changes -/

/-- The second store is the first one, except that the variable of the target has the value. This is seen from
    exactly those scopes from which the target is the closest one with the variable, and by exactly those jumps
    that end at the target. -/
structure Overwritten (s t : Store) (target : ScopeId) (name : String) (value : Value) : Prop where
  defines : ∀ scope sought, t.defines scope sought = s.defines scope sought
  parent : ∀ scope, t.parent? scope = s.parent? scope
  cell : ∀ scope sought, t.cell? scope sought =
    if scope = target ∧ sought = name then some value else s.cell? scope sought
  seen : ∀ scope, s.Closest scope name target → t.get? scope name = some value
  unseen : ∀ scope sought, ¬(sought = name ∧ s.Closest scope name target) →
    t.get? scope sought = s.get? scope sought
  reached : ∀ scope k, s.hop? scope k = some target → t.getAt? scope k name = some value
  unreached : ∀ scope k sought, ¬(sought = name ∧ s.hop? scope k = some target) →
    t.getAt? scope k sought = s.getAt? scope k sought

/-- Writing to a variable that exists overwrites it. -/
theorem Outward.overwritten_put (hs : s.Outward) (h : s.defines target name = true) (value : Value) :
    s.Overwritten (s.put target name value) target name value := by
  have hcell := cell?_put s (lt_size_of_defines h)
  have hsearch : ∀ scope sought,
      (s.put target name value).owner? scope sought = s.owner? scope sought := by
    intro scope sought
    rw [owner?, size_put, ownerWithin?_put h, owner?]
  have hjump : ∀ scope k sought,
      (s.put target name value).ownerAt? scope k sought = s.ownerAt? scope k sought := by
    intro scope k sought
    simp only [ownerAt?, hop?_put, defines_put_of_defines h]
  constructor
  case defines => exact defines_put_of_defines h value
  case parent => exact fun scope => parent?_put s target scope name value
  case cell =>
    intro scope sought
    rw [hcell]
    simp only [eq_comm]
  case seen =>
    intro scope hclosest
    rw [get?, hsearch, hs.owner?_of_closest hclosest, Option.bind_some, hcell, if_pos ⟨rfl, rfl⟩]
  case unseen =>
    intro scope sought hother
    rw [get?, get?, hsearch]
    cases hfound : s.owner? scope sought with
    | none => rfl
    | some owner =>
        rw [Option.bind_some, Option.bind_some, hcell, if_neg]
        rintro ⟨rfl, rfl⟩
        exact hother ⟨rfl, hs.owner?_eq_some_iff.1 hfound⟩
  case reached =>
    intro scope k hhop
    rw [getAt?, hjump, ownerAt?_eq_some_iff.2 ⟨hhop, h⟩, Option.bind_some, hcell, if_pos ⟨rfl, rfl⟩]
  case unreached =>
    intro scope k sought hother
    rw [getAt?, getAt?, hjump]
    cases hfound : s.ownerAt? scope k sought with
    | none => rfl
    | some owner =>
        rw [Option.bind_some, Option.bind_some, hcell, if_neg]
        rintro ⟨rfl, rfl⟩
        exact hother ⟨rfl, (ownerAt?_eq_some_iff.1 hfound).1⟩

/-- In every store that can be built, an assignment that succeeds changes one cell, which is seen exactly from
    the scopes that reach it. By search this is the cell of the closest scope that has the variable, by a jump
    that of the scope at the given distance. -/
theorem assignment_changes_one_cell (built : s.Built) (scope : ScopeId) (name : String) (value : Value)
    (t : Store) :
    (s.assign? scope name value = some t →
      ∃ target, s.Closest scope name target ∧ s.Overwritten t target name value) ∧
    ∀ d, s.assignAt? scope d name value = some t →
      ∃ target, s.hop? scope d = some target ∧ s.Overwritten t target name value := by
  have hs := built.outward
  constructor
  · intro done
    obtain ⟨target, hfound, rfl⟩ := assign?_eq_some_iff.1 done
    exact ⟨target, hs.owner?_eq_some_iff.1 hfound, hs.overwritten_put (defines_of_owner? hfound) value⟩
  · intro d done
    obtain ⟨target, hfound, rfl⟩ := assignAt?_eq_some_iff.1 done
    obtain ⟨hhop, hdefines⟩ := ownerAt?_eq_some_iff.1 hfound
    exact ⟨target, hhop, hs.overwritten_put hdefines value⟩

/-- An assignment from the second empty scope is seen there, and not behind the inner variable. -/
theorem assignment_changes_one_cell_of_nested : ∃ t,
    nested.assign? ⟨4⟩ "a" (.number 5) = some t ∧ t.get? ⟨4⟩ "a" = some (.number 5) ∧
    t.get? ⟨3⟩ "a" = nested.get? ⟨3⟩ "a" := by
  have done : nested.assign? ⟨4⟩ "a" (.number 5) = some (nested.put ⟨1⟩ "a" (.number 5)) := rfl
  obtain ⟨target, hclosest, hover⟩ :=
    (assignment_changes_one_cell built_nested ⟨4⟩ "a" (.number 5) _).1 done
  refine ⟨_, done, hover.seen ⟨4⟩ hclosest, hover.unseen ⟨3⟩ "a" ?_⟩
  rintro ⟨_, hinner⟩
  -- the closest scope with the variable is another one here
  have hs := built_nested.outward
  have hhere : nested.owner? ⟨4⟩ "a" = some target := hs.owner?_of_closest hclosest
  have hthere : nested.owner? ⟨3⟩ "a" = some target := hs.owner?_of_closest hinner
  cases hhere.symm.trans (rfl : nested.owner? ⟨4⟩ "a" = some ⟨1⟩)
  cases hthere

end Kiln.Store
