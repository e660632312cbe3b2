/-
Module: Kiln.Proofs.Store.Chains
Purpose: Scopes and the ways outward from them. Running a program only ever adds scopes and variables, so
  what is known of the way outward from a scope stays true. The way from a scope to the globals is
  compared with the regions of a program around one of its points, region by region.
Main exports: Store.origin?, Store.Grows, Store.Outward, Store.owner?_of_not_defines, Region.Opens,
  Store.Chain, Store.Chain.exists_hop?, Store.Chain.hop?_length
-/
import Kiln.Proofs.Scoping.Steps
import Kiln.Store.Lemmas

namespace Kiln

namespace Store

/-- What a scope was opened for. -/
def origin? (s : Store) (scope : ScopeId) : Option Origin := s.scopes[scope.index]?.map (·.origin)

theorem lt_size_of_origin? {s : Store} {scope : ScopeId} {o : Origin} (h : s.origin? scope = some o) :
    scope.index < s.scopes.size := by
  obtain ⟨sc, hsc, _⟩ := Option.map_eq_some_iff.1 h
  exact (Array.getElem?_eq_some_iff.1 hsc).1

theorem lt_size_of_parent? {s : Store} {scope outer : ScopeId} (h : s.parent? scope = some outer) :
    scope.index < s.scopes.size := by
  obtain ⟨sc, hsc, _⟩ := Option.bind_eq_some_iff.1 h
  exact (Array.getElem?_eq_some_iff.1 hsc).1

theorem lt_size_of_defines {s : Store} {scope : ScopeId} {name : String}
    (h : s.defines scope name = true) : scope.index < s.scopes.size := by
  obtain ⟨v, hv⟩ := Option.isSome_iff_exists.1 h
  obtain ⟨sc, hsc, _⟩ := Option.bind_eq_some_iff.1 hv
  exact (Array.getElem?_eq_some_iff.1 hsc).1

theorem exists_origin? {s : Store} {scope : ScopeId} (h : scope.index < s.scopes.size) :
    ∃ o, s.origin? scope = some o :=
  ⟨_, by rw [origin?, Array.getElem?_eq_getElem h]; rfl⟩

/-! ### What the operations do to origins and to the variables that exist -/

@[simp]
theorem origin?_put (s : Store) (scope other : ScopeId) (name : String) (value : Value) :
    (s.put scope name value).origin? other = s.origin? other := by
  simp only [origin?, put, Array.getElem?_modify]
  split
  · cases s.scopes[other.index]? <;> rfl
  · rfl

theorem origin?_newScope (s : Store) (origin : Origin) (parent : Option ScopeId) (other : ScopeId) :
    (s.newScope origin parent).2.origin? other
      = if other = (s.newScope origin parent).1 then some origin else s.origin? other := by
  obtain ⟨j⟩ := other
  simp only [origin?, newScope, Array.getElem?_push, ScopeId.mk.injEq]
  split <;> rfl

theorem defines_put (s : Store) {scope : ScopeId} (h : scope.index < s.scopes.size)
    (other : ScopeId) (name sought : String) (value : Value) :
    (s.put scope name value).defines other sought = true ↔
      (scope = other ∧ name = sought) ∨ s.defines other sought = true := by
  simp only [defines, cell?_put s h]
  split
  · next hsame => simp [hsame]
  · next hother => simp [hother]

@[simp]
theorem defines_newScope (s : Store) (origin : Origin) (parent : Option ScopeId) (other : ScopeId)
    (name : String) : (s.newScope origin parent).2.defines other name = s.defines other name := by
  simp [defines]

/-- Writing to a scope that does not exist changes nothing. -/
theorem put_of_size_le (s : Store) {scope : ScopeId} (h : s.scopes.size ≤ scope.index) (name : String)
    (value : Value) : s.put scope name value = s := by
  have hsame : s.scopes.modify scope.index
      (fun sc => { sc with cells := sc.cells.insert name value }) = s.scopes := by
    apply Array.ext_getElem?
    intro i
    rw [Array.getElem?_modify]
    split
    · next hi => rw [← hi, Array.getElem?_eq_none h, Option.map_none]
    · rfl
  rw [put, hsame]

/-! ### Growth -/

/-- The second store has all scopes of the first, at the same places, and all their variables. -/
structure Grows (s t : Store) : Prop where
  origin : ∀ {scope : ScopeId} {o : Origin}, s.origin? scope = some o → t.origin? scope = some o
  parent : ∀ {scope outer : ScopeId}, s.parent? scope = some outer → t.parent? scope = some outer
  defines : ∀ {scope : ScopeId} {name : String},
    s.defines scope name = true → t.defines scope name = true

namespace Grows

theorem refl (s : Store) : Grows s s := ⟨id, id, id⟩

theorem trans {s t u : Store} (h : Grows s t) (h' : Grows t u) : Grows s u :=
  ⟨h'.origin ∘ h.origin, h'.parent ∘ h.parent, h'.defines ∘ h.defines⟩

theorem lt_size {s t : Store} (h : Grows s t) {scope : ScopeId}
    (hlt : scope.index < s.scopes.size) : scope.index < t.scopes.size := by
  obtain ⟨o, ho⟩ := exists_origin? hlt
  exact lt_size_of_origin? (h.origin ho)

theorem size_le {s t : Store} (h : Grows s t) : s.scopes.size ≤ t.scopes.size := by
  apply Nat.le_of_not_lt
  intro hlt
  have hself : (⟨t.scopes.size⟩ : ScopeId).index < t.scopes.size := h.lt_size hlt
  exact Nat.lt_irrefl _ hself

theorem put (s : Store) (scope : ScopeId) (name : String) (value : Value) :
    Grows s (s.put scope name value) where
  origin h := by rwa [origin?_put]
  parent h := by rwa [parent?_put]
  defines := by
    intro other sought h
    by_cases hlt : scope.index < s.scopes.size
    · exact (defines_put s hlt other name sought value).2 (.inr h)
    · rwa [put_of_size_le s (Nat.le_of_not_lt hlt)]

theorem newScope (s : Store) (origin : Origin) (parent : Option ScopeId) :
    Grows s (s.newScope origin parent).2 where
  origin := by
    intro scope o h
    have hlt := lt_size_of_origin? h
    rw [origin?_newScope, if_neg, h]
    rintro rfl
    exact Nat.lt_irrefl _ hlt
  parent := by
    intro scope outer h
    have hlt := lt_size_of_parent? h
    rw [parent?_newScope, if_neg, h]
    rintro rfl
    exact Nat.lt_irrefl _ hlt
  defines h := by rwa [defines_newScope]

theorem newObject (s : Store) : Grows s s.newObject.2 := ⟨id, id, id⟩

theorem setField (s : Store) (object : ObjectId) (name : String) (value : Value) :
    Grows s (s.setField object name value) := ⟨id, id, id⟩

theorem newIdentity (s : Store) : Grows s s.newIdentity.2 := ⟨id, id, id⟩

theorem hop? {s t : Store} (h : Grows s t) {k : Nat} {scope target : ScopeId}
    (hk : s.hop? scope k = some target) : t.hop? scope k = some target := by
  induction k generalizing scope with
  | zero => exact hk
  | succ k ih =>
      obtain ⟨outer, houter, hrest⟩ := Option.bind_eq_some_iff.1 hk
      exact Option.bind_eq_some_iff.2 ⟨outer, h.parent houter, ih hrest⟩

end Grows

/-! ### Searching outward -/

/-- Every scope is older than the scopes inside it. -/
def Outward (s : Store) : Prop :=
  ∀ scope outer, s.parent? scope = some outer → outer.index < scope.index

theorem Outward.put {s : Store} (hs : s.Outward) (scope : ScopeId) (name : String) (value : Value) :
    (s.put scope name value).Outward := by
  intro inner outer houter
  rw [parent?_put] at houter
  exact hs inner outer houter

/-- A scope that is opened inside one that exists is younger. -/
theorem Outward.newScope {s : Store} (hs : s.Outward) (origin : Origin) {parent : Option ScopeId}
    (there : ∀ outer, parent = some outer → outer.index < s.scopes.size) :
    (s.newScope origin parent).2.Outward := by
  intro inner outer houter
  rw [parent?_newScope] at houter
  split at houter
  · next hsame =>
    rw [hsame]
    exact there outer houter
  · exact hs inner outer houter

theorem hop?_add (s : Store) (scope : ScopeId) (a b : Nat) :
    s.hop? scope (a + b) = (s.hop? scope a).bind fun target => s.hop? target b := by
  induction a generalizing scope with
  | zero => simp [hop?]
  | succ a ih =>
      rw [Nat.succ_add, hop?, hop?, Option.bind_assoc]
      exact congrArg _ (funext ih)

theorem hop?_put (s : Store) (owner : ScopeId) (name : String) (value : Value) (scope : ScopeId) (k : Nat) :
    (s.put owner name value).hop? scope k = s.hop? scope k := by
  induction k generalizing scope with
  | zero => rfl
  | succ k ih => simp only [hop?, parent?_put, ih]

theorem hop?_succ {s : Store} {scope target outer : ScopeId} {k : Nat} (h : s.hop? scope k = some target)
    (around : s.parent? target = some outer) : s.hop? scope (k + 1) = some outer := by
  rw [hop?_add, h, Option.bind_some]
  exact Option.bind_eq_some_iff.2 ⟨outer, around, rfl⟩

theorem Outward.index_add_le {s : Store} (hs : s.Outward) {k : Nat} {scope target : ScopeId}
    (h : s.hop? scope k = some target) : target.index + k ≤ scope.index := by
  induction k generalizing scope with
  | zero =>
      cases h
      exact Nat.le_refl _
  | succ k ih =>
      obtain ⟨outer, houter, hrest⟩ := Option.bind_eq_some_iff.1 h
      have hlt := hs scope outer houter
      have hle := ih hrest
      omega

/-- A scope lies at one distance only. -/
theorem Outward.distance_unique {s : Store} (hs : s.Outward) {a b : Nat} {scope target : ScopeId}
    (ha : s.hop? scope a = some target) (hb : s.hop? scope b = some target) : a = b := by
  have hle : ∀ {m n : Nat}, s.hop? scope m = some target → s.hop? scope n = some target →
      m ≤ n → m = n := by
    intro m n hm hn hmn
    obtain ⟨k, rfl⟩ := Nat.exists_eq_add_of_le hmn
    rw [hop?_add, hm, Option.bind_some] at hn
    have hback := hs.index_add_le hn
    omega
  rcases Nat.le_total a b with hab | hba
  · exact hle ha hb hab
  · exact (hle hb ha hba).symm

/-- A search that may go further than its way outward is long finds the same. -/
theorem ownerWithin?_eq {s : Store} (hs : s.Outward) (name : String) {n m : Nat} {scope : ScopeId}
    (hn : scope.index < n) (hm : scope.index < m) :
    s.ownerWithin? name n scope = s.ownerWithin? name m scope := by
  induction n generalizing m scope with
  | zero => exact absurd hn (Nat.not_lt_zero _)
  | succ n ih =>
      cases m with
      | zero => exact absurd hm (Nat.not_lt_zero _)
      | succ m =>
          simp only [ownerWithin?]
          split
          · rfl
          · cases hp : s.parent? scope with
            | none => rfl
            | some outer =>
                have hlt := hs scope outer hp
                exact ih (by omega) (by omega)

theorem owner?_of_defines {s : Store} {scope : ScopeId} {name : String}
    (h : s.defines scope name = true) : s.owner? scope name = some scope := by
  have hlt := lt_size_of_defines h
  obtain ⟨k, hk⟩ : ∃ k, s.scopes.size = k + 1 := ⟨s.scopes.size - 1, by omega⟩
  rw [owner?, hk, ownerWithin?, if_pos h]

/-- A search goes on from the scope around one that does not have the variable. -/
theorem owner?_of_not_defines {s : Store} (hs : s.Outward) {scope outer : ScopeId} {name : String}
    (hp : s.parent? scope = some outer) (h : s.defines scope name = false) :
    s.owner? scope name = s.owner? outer name := by
  have hlt := lt_size_of_parent? hp
  have houter := hs scope outer hp
  obtain ⟨k, hk⟩ : ∃ k, s.scopes.size = k + 1 := ⟨s.scopes.size - 1, by omega⟩
  rw [owner?, owner?, hk, ownerWithin?, h]
  simp only [Bool.false_eq_true, if_false, hp, Option.bind_some]
  exact ownerWithin?_eq hs name (by omega) (by omega)

/-- A search goes on from a scope further out if no scope before it has the variable. -/
theorem owner?_of_hop? {s : Store} (hs : s.Outward) {d : Nat} {scope target : ScopeId} {name : String}
    (hd : s.hop? scope d = some target)
    (before : ∀ k < d, ∀ t, s.hop? scope k = some t → s.defines t name = false) :
    s.owner? scope name = s.owner? target name := by
  induction d generalizing scope with
  | zero =>
      cases hd
      rfl
  | succ d ih =>
      obtain ⟨outer, houter, hrest⟩ := Option.bind_eq_some_iff.1 hd
      have hhere : s.defines scope name = false := before 0 (Nat.succ_pos d) scope rfl
      rw [owner?_of_not_defines hs houter hhere]
      apply ih hrest
      intro k hk t ht
      apply before (k + 1) (Nat.succ_lt_succ hk) t
      exact Option.bind_eq_some_iff.2 ⟨outer, houter, ht⟩

/-- A search ends at a scope without the variable and without a scope around it. -/
theorem owner?_of_parent?_eq_none {s : Store} {scope : ScopeId} {name : String}
    (hp : s.parent? scope = none) (h : s.defines scope name = false) : s.owner? scope name = none := by
  unfold owner?
  cases s.scopes.size with
  | zero => rfl
  | succ k => simp [ownerWithin?, h, hp]

theorem defines_of_ownerWithin? {s : Store} {name : String} {n : Nat} {scope target : ScopeId}
    (h : s.ownerWithin? name n scope = some target) : s.defines target name = true := by
  induction n generalizing scope with
  | zero => cases h
  | succ n ih =>
      simp only [ownerWithin?] at h
      split at h
      · next hd =>
        cases h
        exact hd
      · obtain ⟨outer, _, hrest⟩ := Option.bind_eq_some_iff.1 h
        exact ih hrest

theorem defines_of_owner? {s : Store} {name : String} {scope target : ScopeId}
    (h : s.owner? scope name = some target) : s.defines target name = true :=
  defines_of_ownerWithin? h

/-- A scope that is found by search lies at some distance. -/
theorem exists_hop?_of_owner? {s : Store} {name : String} {scope target : ScopeId}
    (h : s.owner? scope name = some target) : ∃ k, s.hop? scope k = some target := by
  unfold owner? at h
  generalize s.scopes.size = steps at h
  induction steps generalizing scope with
  | zero => cases h
  | succ steps ih =>
      rw [ownerWithin?] at h
      split at h
      · cases h
        exact ⟨0, rfl⟩
      · obtain ⟨outer, around, hrest⟩ := Option.bind_eq_some_iff.1 h
        obtain ⟨k, hk⟩ := ih hrest
        exact ⟨k + 1, Option.bind_eq_some_iff.2 ⟨outer, around, hk⟩⟩

/-- Writing to a variable that exists adds no variable. -/
theorem defines_put_of_defines {s : Store} {owner : ScopeId} {name : String}
    (h : s.defines owner name = true) (value : Value) (scope : ScopeId) (sought : String) :
    (s.put owner name value).defines scope sought = s.defines scope sought := by
  rw [Bool.eq_iff_iff, defines_put s (lt_size_of_defines h)]
  constructor
  · rintro (⟨rfl, rfl⟩ | hother)
    · exact h
    · exact hother
  · exact .inr

/-- Writing to a variable that exists does not change where variables are found. -/
theorem ownerWithin?_put {s : Store} {owner : ScopeId} {name : String} (h : s.defines owner name = true)
    (value : Value) (sought : String) (n : Nat) (scope : ScopeId) :
    (s.put owner name value).ownerWithin? sought n scope = s.ownerWithin? sought n scope := by
  induction n generalizing scope with
  | zero => rfl
  | succ n ih => simp only [ownerWithin?, defines_put_of_defines h, parent?_put, ih]

/-- A variable has the value that was last written to it. -/
theorem get?_put_of_owner? {s : Store} {scope owner : ScopeId} {name : String}
    (h : s.owner? scope name = some owner) (value : Value) :
    (s.put owner name value).get? scope name = some value := by
  have hdefines := defines_of_owner? h
  have howner : (s.put owner name value).owner? scope name = some owner := by
    rw [owner?, size_put, ownerWithin?_put hdefines]
    exact h
  rw [get?, howner, Option.bind_some, cell?_put s (lt_size_of_defines hdefines), if_pos ⟨rfl, rfl⟩]

theorem ownerAt?_eq_some_iff {s : Store} {name : String} {scope target : ScopeId} {d : Nat} :
    s.ownerAt? scope d name = some target ↔
      s.hop? scope d = some target ∧ s.defines target name = true := by
  simp [ownerAt?, Option.filter_eq_some_iff]

end Store

/-! ### Chains of scopes and regions -/

/-- A scope with this origin stands for the scope of this region. -/
inductive Region.Opens : Region → Origin → Prop where
  | block (body : List Stmt) : Opens (.block body) (.block body)
  | call (kind : FunctionKind) (f : Function) : Opens (.function kind f) (.call f)
  | binding {methods : List Function} {m : Function} (h : m ∈ methods) :
      Opens (.methods methods) (.binding m)

theorem Region.Opens.ne_outside {region : Region} {o : Origin} (h : region.Opens o) : o ≠ .outside := by
  cases h <;> simp

namespace Store

/-- The way outward from a scope to the globals leads through scopes that stand for these regions, the
    innermost first. -/
inductive Chain (s : Store) (globals : ScopeId) : ScopeId → List Region → Prop where
  | top : Chain s globals globals []
  | inside {scope outer : ScopeId} {origin : Origin} {region : Region} {regions : List Region}
      (known : s.origin? scope = some origin) (around : s.parent? scope = some outer)
      (opens : region.Opens origin) (rest : Chain s globals outer regions) :
      Chain s globals scope (region :: regions)

namespace Chain

variable {s t : Store} {globals scope : ScopeId} {regions : List Region}

theorem mono (h : s.Grows t) (hc : s.Chain globals scope regions) :
    t.Chain globals scope regions := by
  induction hc with
  | top => exact .top
  | inside known around opens _ ih => exact .inside (h.origin known) (h.parent around) opens ih

/-- The globals are as many scopes away as there are regions. -/
theorem hop?_length (hc : s.Chain globals scope regions) :
    s.hop? scope regions.length = some globals := by
  induction hc with
  | top => rfl
  | inside _ around _ _ ih => exact Option.bind_eq_some_iff.2 ⟨_, around, ih⟩

/-- Each region has its scope at its own distance. -/
theorem exists_hop? (hc : s.Chain globals scope regions) {k : Nat} (hk : k < regions.length) :
    ∃ target origin region, s.hop? scope k = some target ∧ s.origin? target = some origin ∧
      regions[k]? = some region ∧ region.Opens origin := by
  induction hc generalizing k with
  | top => exact absurd hk (Nat.not_lt_zero k)
  | @inside scope outer origin region regions known around opens _ ih =>
      cases k with
      | zero => exact ⟨scope, origin, region, rfl, known, rfl, opens⟩
      | succ k =>
          obtain ⟨target, o, r, hhop, ho, hr, hopens⟩ := ih (Nat.lt_of_succ_lt_succ hk)
          exact ⟨target, o, r, Option.bind_eq_some_iff.2 ⟨outer, around, hhop⟩, ho, hr, hopens⟩

end Chain

end Store

end Kiln
