/-
Module: Kiln.Proofs.Renaming.Scoping
Purpose: The scope analysis of a program in which the variables of one scope are renamed. At every point the
  analysis knows the same names as before, but for the table of that one scope, in which each name stands
  under its new form. So it accepts the program and finds the same distances, provided that no new name
  is among the old ones.
Main exports: Nested, Exchange, Tables, NamesAlike, Step.Tracks, Stmt.tracks, Program.tracks,
  resolve_rename
-/
import Mathlib.Data.List.Forall2
import Kiln.Proofs.Renaming.Tree
import Kiln.Proofs.Scoping.Walk

namespace Kiln

/-! ### Distances to the scope of the renaming -/

/-- How far the scope of the renaming lies from a scope, and from a scope directly inside that one. -/
inductive Nested : Option Nat → Option Nat → Prop where
  | away : Nested none none
  /-- The inner scope is that of the renaming. -/
  | target : Nested none (some 0)
  | inside (k : Nat) : Nested (some k) (some (k + 1))

theorem Site.nested_enter (ρ : String → String) (functions : List String) (site : Site) :
    Nested site.distance (site.enter ρ functions).distance := by
  match site with
  | .outside [] =>
      rw [enter]
      split
      · exact .target
      · exact .away
  | .outside (_ :: _) => exact .away
  | .elsewhere => exact .away
  | .inside k => exact .inside k

theorem Site.nested_enterClass (site : Site) : Nested site.distance site.enterClass.distance := by
  cases site with
  | outside path => exact .away
  | elsewhere => exact .away
  | inside k => exact .inside k

/-- The scope of methods is never that of the renaming. -/
theorem Site.distance_enterClass_ne (site : Site) : site.enterClass.distance ≠ some 0 := by
  cases site <;> simp [enterClass, distance]

/-- The functions and classes of the scope of the renaming keep their names. -/
theorem Site.eq_of_mem_functions {ρ : String → String} {functions : List String} {site : Site}
    (h : (site.enter ρ functions).distance = some 0) {f : String} (hf : f ∈ functions) : ρ f = f := by
  match site with
  | .outside [] =>
      rw [enter] at h
      split at h
      · next hall => exact eq_of_beq (List.all_eq_true.1 hall f hf)
      · cases h
  | .outside (_ :: _) => cases h
  | .elsewhere => cases h
  | .inside k => simp [enter, distance] at h

/-! ### Names -/

/-- A change of names that is undone when it is done again, and keeps `this`. -/
structure Exchange (ρ : String → String) : Prop where
  involutive : ∀ name, ρ (ρ name) = name
  this_eq : ρ "this" = "this"

theorem Exchange.injective {ρ : String → String} (h : Exchange ρ) {m n : String} (hmn : ρ m = ρ n) :
    m = n := by
  rw [← h.involutive m, hmn, h.involutive]

theorem Exchange.eq_iff {ρ : String → String} (h : Exchange ρ) {m n : String} : ρ m = ρ n ↔ m = n :=
  ⟨h.injective, congrArg ρ⟩

/-- What is changed among the used names is no used name any more. -/
def Fresh (ρ : String → String) (used : String → Prop) : Prop :=
  ∀ name, used name → used (ρ name) → ρ name = name

/-- The tables of the open scopes, where the scope of the renaming lies at a distance. -/
inductive Tables (ρ : String → String) : Option Nat → List NameTable → List NameTable → Prop where
  | away (tables : List NameTable) : Tables ρ none tables tables
  | target {table table' : NameTable} (tables : List NameTable)
      (h : ∀ name, table'[ρ name]? = table[name]?) :
      Tables ρ (some 0) (table :: tables) (table' :: tables)
  | inside {k : Nat} {tables tables' : List NameTable} (table : NameTable)
      (h : Tables ρ (some k) tables tables') :
      Tables ρ (some (k + 1)) (table :: tables) (table :: tables')

/-- What the analysis knows at a point of a program, and at the same point of the renamed one. -/
structure NamesAlike (ρ : String → String) (used : String → Prop) (d : Option Nat) (n n' : Names) :
    Prop where
  locals : Tables ρ d n.locals n'.locals
  used : ∀ table ∈ n.locals, ∀ name ∈ table, used name
  topLevel : n'.topLevel = n.topLevel
  enclosing : n'.enclosing = n.enclosing
  found : n'.found = n.found

section Lookup

variable {ρ : String → String} {used : String → Prop} {d : Option Nat} {name : String}

theorem referAt_none (bound : Option Nat) : referAt ρ none bound name = name := by
  simp [referAt]

theorem referAt_some (k : Nat) (bound : Option Nat) :
    referAt ρ (some k) bound name = if bound = some k then ρ name else name := by
  simp [referAt]

/-- A table without a name does not have it under its new form either. -/
theorem Fresh.contains_eq_false (fresh : Fresh ρ used) {table : NameTable}
    (htable : ∀ name ∈ table, used name) (hname : used name) (h : table.contains name = false) :
    table.contains (ρ name) = false := by
  cases hρ : table.contains (ρ name) with
  | false => rfl
  | true =>
      have hmem : ρ name ∈ table := hρ
      rw [fresh name hname (htable _ hmem), h] at hρ
      cases hρ

theorem contains_target {table table' : NameTable} (h : ∀ name, table'[ρ name]? = table[name]?)
    (name : String) : table'.contains (ρ name) = table.contains name := by
  rw [Std.ExtTreeMap.contains_eq_isSome_getElem?, Std.ExtTreeMap.contains_eq_isSome_getElem?, h]

/-- The table of the scope of the renaming has no old form of a name that it did not have. -/
theorem Fresh.contains_target_eq_false (fresh : Fresh ρ used) (exchange : Exchange ρ)
    {table table' : NameTable} (htable : ∀ name ∈ table, used name)
    (h : ∀ name, table'[ρ name]? = table[name]?) (hname : used name)
    (hin : table.contains name = false) : table'.contains name = false := by
  rw [← exchange.involutive name, contains_target h]
  exact fresh.contains_eq_false htable hname hin

/-- A name is found at the same distance, if it is looked for under its new form where it is found in the scope
    of the renaming. -/
theorem Tables.findIdx?_eq (exchange : Exchange ρ) (fresh : Fresh ρ used)
    {tables tables' : List NameTable} (h : Tables ρ d tables tables')
    (htables : ∀ table ∈ tables, ∀ name ∈ table, used name) (hname : used name) :
    tables'.findIdx? (fun t => t.contains
        (referAt ρ d (tables.findIdx? fun t => t.contains name) name))
      = tables.findIdx? (fun t => t.contains name) := by
  induction h with
  | away tables => rw [referAt_none]
  | @target table table' tables hsame =>
      rw [List.forall_mem_cons] at htables
      rw [List.findIdx?_cons, List.findIdx?_cons, referAt_some]
      cases hin : table.contains name with
      | true => simp [contains_target hsame, hin]
      | false => simp [fresh.contains_target_eq_false exchange htables.1 hsame hname hin]
  | @inside k tables tables' table _ ih =>
      rw [List.forall_mem_cons] at htables
      have ih := ih htables.2
      rw [referAt_some] at ih
      rw [List.findIdx?_cons, List.findIdx?_cons, referAt_some]
      cases hin : table.contains name with
      | true => simp [hin]
      | false =>
          by_cases hk : (tables.findIdx? fun t => t.contains name) = some k
          · rw [if_pos hk] at ih
            simp [hk, fresh.contains_eq_false htables.1 hname hin, ih]
          · rw [if_neg hk] at ih
            simp [hk, hin, ih]

end Lookup

namespace NamesAlike

variable {ρ : String → String} {used : String → Prop} {d : Option Nat} {n n' : Names}

theorem distance?_eq (exchange : Exchange ρ) (fresh : Fresh ρ used) (h : NamesAlike ρ used d n n')
    {name : String} (hname : used name) :
    n'.distance? (referAt ρ d (n.distance? name) name) = n.distance? name :=
  h.locals.findIdx?_eq exchange fresh h.used hname

/-- A name that is about to be read is known in the innermost scope as before. -/
theorem innermost_eq (exchange : Exchange ρ) (fresh : Fresh ρ used) (h : NamesAlike ρ used d n n')
    {name : String} (hname : used name) :
    n'.innermost[referAt ρ d (n.distance? name) name]? = n.innermost[name]? := by
  obtain ⟨locals, topLevel, enclosing, found⟩ := n
  obtain ⟨locals', topLevel', enclosing', found'⟩ := n'
  obtain ⟨hlocals, hused, htop, -, -⟩ := h
  simp only at hlocals hused htop
  subst htop
  cases hlocals with
  | away tables =>
      rw [referAt_none]
      rfl
  | @target table table' tables hsame =>
      simp only [Names.innermost, Names.distance?, List.headD_cons, List.findIdx?_cons, referAt_some]
      rw [List.forall_mem_cons] at hused
      cases hin : table.contains name with
      | true => simp [hsame]
      | false =>
          have hin' := fresh.contains_target_eq_false exchange hused.1 hsame hname hin
          simp [Std.ExtTreeMap.getElem?_eq_none_of_contains_eq_false hin,
            Std.ExtTreeMap.getElem?_eq_none_of_contains_eq_false hin']
  | @inside k tables tables' table _ =>
      simp only [Names.innermost, Names.distance?, List.headD_cons, List.findIdx?_cons, referAt_some]
      rw [List.forall_mem_cons] at hused
      cases hin : table.contains name with
      | true => simp
      | false =>
          have hin' := fresh.contains_eq_false hused.1 hname hin
          simp only [Bool.false_eq_true, if_false]
          split
          · rw [Std.ExtTreeMap.getElem?_eq_none_of_contains_eq_false hin,
              Std.ExtTreeMap.getElem?_eq_none_of_contains_eq_false hin']
          · rfl

/-- A name that is about to be declared is known in the innermost scope as before. -/
theorem contains_innermost (h : NamesAlike ρ used d n n') (name : String) :
    n'.innermost.contains (nameAt ρ d name) = n.innermost.contains name := by
  obtain ⟨locals, topLevel, enclosing, found⟩ := n
  obtain ⟨locals', topLevel', enclosing', found'⟩ := n'
  obtain ⟨hlocals, -, htop, -, -⟩ := h
  simp only at hlocals htop
  subst htop
  cases hlocals with
  | away tables => simp [nameAt, Names.innermost]
  | target tables hsame => exact contains_target hsame name
  | inside table _ => simp [nameAt, Names.innermost]

/-- Declaring a name under its new form keeps the names alike. -/
theorem mark (exchange : Exchange ρ) (h : NamesAlike ρ used d n n') {name : String}
    (hname : used name) (ready : Bool) :
    NamesAlike ρ used d (n.mark name ready) (n'.mark (nameAt ρ d name) ready) := by
  obtain ⟨locals, topLevel, enclosing, found⟩ := n
  obtain ⟨locals', topLevel', enclosing', found'⟩ := n'
  obtain ⟨hlocals, hused, htop, hinside, hfound⟩ := h
  simp only at hlocals hused htop hinside hfound
  have hinsert : ∀ table : NameTable, (∀ m ∈ table, used m) → ∀ m ∈ table.insert name ready, used m := by
    intro table htable m hm
    rw [Std.ExtTreeMap.mem_insert, Std.compare_eq_iff_eq] at hm
    rcases hm with rfl | hm
    · exact hname
    · exact htable m hm
  cases hlocals with
  | away =>
      cases locals with
      | nil => exact ⟨.away _, hused, by simp [Names.mark, nameAt, htop], hinside, hfound⟩
      | cons table tables =>
          rw [List.forall_mem_cons] at hused
          refine ⟨?_, List.forall_mem_cons.2 ⟨hinsert table hused.1, hused.2⟩, htop, hinside, hfound⟩
          exact .away _
  | @target table table' tables hsame =>
      rw [List.forall_mem_cons] at hused
      refine ⟨.target tables fun m => ?_, List.forall_mem_cons.2 ⟨hinsert table hused.1, hused.2⟩, htop,
        hinside, hfound⟩
      simp [nameAt, Std.ExtTreeMap.getElem?_insert, hsame, exchange.eq_iff]
  | @inside k tables tables' table htables =>
      rw [List.forall_mem_cons] at hused
      refine ⟨.inside _ htables, List.forall_mem_cons.2 ⟨hinsert table hused.1, hused.2⟩, htop,
        hinside, hfound⟩

/-- Noting the distance of a reference keeps the names alike. -/
theorem record (h : NamesAlike ρ used d n n') (id : NodeId) (k : Nat) :
    NamesAlike ρ used d { n with found := n.found.record id k }
      { n' with found := n'.found.record id k } :=
  ⟨h.locals, h.used, h.topLevel, h.enclosing, by simp only [h.found]⟩

end NamesAlike

/-! ### Regions -/

theorem Tables.push {ρ : String → String} {d d' : Option Nat} {tables tables' : List NameTable}
    (h : Tables ρ d tables tables') (nested : Nested d d') :
    Tables ρ d' (∅ :: tables) (∅ :: tables') := by
  cases nested with
  | away =>
      cases h
      exact .away _
  | target =>
      cases h
      apply Tables.target
      intro name
      simp
  | inside k => exact .inside ∅ h

theorem Tables.pop {ρ : String → String} {d d' : Option Nat} {tables tables' : List NameTable}
    (h : Tables ρ d' tables tables') (nested : Nested d d') :
    Tables ρ d tables.tail tables'.tail := by
  cases nested with
  | away =>
      cases h
      exact .away _
  | target =>
      cases h
      exact .away _
  | inside k =>
      cases h with
      | inside table h => exact h

/-- Regions of one kind. Only the scopes of blocks and functions can be that of the renaming. -/
inductive Region.Alike (d : Option Nat) : Region → Region → Prop where
  | block (body body' : List Stmt) : Alike d (.block body) (.block body')
  | function (kind : FunctionKind) (f f' : Function) : Alike d (.function kind f) (.function kind f')
  | methods (functions functions' : List Function) (h : d ≠ some 0) :
      Alike d (.methods functions) (.methods functions')

namespace NamesAlike

variable {ρ : String → String} {used : String → Prop} {d d' : Option Nat} {n n' m m' : Names}
  {region region' : Region}

theorem push (h : NamesAlike ρ used d n n') (nested : Nested d d') :
    NamesAlike ρ used d' n.push n'.push where
  locals := h.locals.push nested
  used := by
    intro table htable name hname
    rcases List.mem_cons.1 htable with rfl | htable
    · simp at hname
    · exact h.used table htable name hname
  topLevel := h.topLevel
  enclosing := h.enclosing
  found := h.found

theorem pop (h : NamesAlike ρ used d' n n') (nested : Nested d d') :
    NamesAlike ρ used d n.pop n'.pop where
  locals := h.locals.pop nested
  used table htable := h.used table (List.mem_of_mem_tail htable)
  topLevel := h.topLevel
  enclosing := h.enclosing
  found := h.found

theorem enter (exchange : Exchange ρ) (known : used "this") (h : NamesAlike ρ used d n n')
    (nested : Nested d d') (regions : Region.Alike d' region region') :
    NamesAlike ρ used d' (n.enter region) (n'.enter region') := by
  have hpush := h.push nested
  cases regions with
  | block body body' => exact hpush
  | function kind f f' => exact ⟨hpush.locals, hpush.used, hpush.topLevel, rfl, hpush.found⟩
  | methods functions functions' hd =>
      have hmark := hpush.mark exchange known true
      rwa [nameAt, if_neg hd] at hmark

theorem leave (before : NamesAlike ρ used d n n') (after : NamesAlike ρ used d' m m')
    (nested : Nested d d') (regions : Region.Alike d' region region') :
    NamesAlike ρ used d (n.leave m region) (n'.leave m' region') := by
  have hpop := after.pop nested
  cases regions with
  | block body body' => exact hpop
  | function kind f f' => exact ⟨hpop.locals, hpop.used, hpop.topLevel, before.enclosing, hpop.found⟩
  | methods functions functions' _ => exact hpop

end NamesAlike

/-! ### Steps -/

namespace Step

/-- What is fixed while the steps `all` of a program are followed: the names that it uses, and the distances
    of its references, of which no two share an id. -/
structure Followed (ρ : String → String) (used : String → Prop) (a : Annotations) (all : List Step) :
    Prop where
  exchange : Exchange ρ
  fresh : Fresh ρ used
  this_used : used "this"
  unnamed_used : used "anonymous"
  distinct : (idsOfAll all).Nodup
  accepted : ∃ last, runAll all .initial = .ok () last ∧ last.found = a

/-- A reference, and the same reference in the renamed program. -/
structure ReferenceAlike (ρ : String → String) (used : String → Prop) (r r' : Reference) : Prop where
  id_eq : r'.id = r.id
  used : used r.name
  name_eq : r'.name = r.name ∨ r'.name = ρ r.name

theorem ReferenceAlike.refer {ρ : String → String} {used : String → Prop} {name : String}
    (hname : used name) (id : NodeId) {d bound : Option Nat} {depth : Nat} :
    ReferenceAlike ρ used ⟨name, id, depth⟩ ⟨referAt ρ d bound name, id, depth⟩ where
  id_eq := rfl
  used := hname
  name_eq := by
    unfold referAt
    split
    · exact .inr rfl
    · exact .inl rfl

/-- Steps that are met on the way through `all`, and the same steps in the renamed program: the latter succeed
    as the former do, and have the same references up to their names. -/
structure Tracks (ρ : String → String) (used : String → Prop) (all : List Step) (d : Option Nat)
    (steps steps' : List Step) : Prop where
  references : List.Forall₂ (ReferenceAlike ρ used) (referencesOfAll steps) (referencesOfAll steps')
  run : ∀ {n n' m : Names} {regions : List Region}, Meets all steps n regions →
    NamesAlike ρ used d n n' → runAll steps n = .ok () m →
      ∃ m', runAll steps' n' = .ok () m' ∧ NamesAlike ρ used d m m'

namespace Tracks

variable {ρ : String → String} {used : String → Prop} {a : Annotations} {all : List Step}
  {d d' : Option Nat}

/-- The references of the renamed program have the same ids. -/
theorem ids_eq {steps steps' : List Step} (h : Tracks ρ used all d steps steps') :
    idsOfAll steps' = idsOfAll steps := by
  have hreferences := h.references
  unfold idsOfAll
  generalize referencesOfAll steps = rs at hreferences
  generalize referencesOfAll steps' = rs' at hreferences
  induction hreferences with
  | nil => rfl
  | cons hr _ ih => rw [List.map_cons, List.map_cons, hr.id_eq, ih]

theorem nil : Tracks ρ used all d [] [] where
  references := .nil
  run _ alike taken := by
    rw [runAll_nil_eq_ok.1 taken]
    exact ⟨_, runAll_nil_eq_ok.2 rfl, alike⟩

theorem append {x x' y y' : List Step} (hx : Tracks ρ used all d x x') (hy : Tracks ρ used all d y y') :
    Tracks ρ used all d (x ++ y) (x' ++ y') where
  references := by
    rw [referencesOfAll_append, referencesOfAll_append]
    exact List.rel_append hx.references hy.references
  run meets alike taken := by
    obtain ⟨k, hk, hm⟩ := runAll_append_eq_ok.1 taken
    obtain ⟨k', hk', alike'⟩ := hx.run meets.first alike hk
    obtain ⟨m', hm', alike''⟩ := hy.run (meets.next hk) alike' hm
    exact ⟨m', runAll_append_eq_ok.2 ⟨k', hk', hm'⟩, alike''⟩

theorem declare (exchange : Exchange ρ) {name : String} (hname : used name) :
    Tracks ρ used all d [.declare name] [.declare (nameAt ρ d name)] where
  references := .nil
  run _ alike taken := by
    rw [runAll_singleton] at taken
    obtain ⟨hfree, rfl⟩ := run_declare_eq_ok.1 taken
    rw [← alike.contains_innermost] at hfree
    rw [runAll_singleton]
    exact ⟨_, run_declare_eq_ok.2 ⟨hfree, rfl⟩, alike.mark exchange hname false⟩

theorem define (exchange : Exchange ρ) {name : String} (hname : used name) :
    Tracks ρ used all d [.define name] [.define (nameAt ρ d name)] where
  references := .nil
  run _ alike taken := by
    rw [runAll_singleton] at taken
    cases run_define_eq_ok.1 taken
    rw [runAll_singleton]
    exact ⟨_, run_define_eq_ok.2 rfl, alike.mark exchange hname true⟩

theorem exit : Tracks ρ used all d [.exit] [.exit] where
  references := .nil
  run _ alike taken := by
    rw [runAll_singleton] at taken
    obtain ⟨hinside, rfl⟩ := run_exit_eq_ok.1 taken
    rw [← alike.enclosing] at hinside
    rw [runAll_singleton]
    exact ⟨_, run_exit_eq_ok.2 ⟨hinside, rfl⟩, alike⟩

/-- A reference is located under its new name as it was under its old one. -/
theorem locate (followed : Followed ρ used a all) {name : String} (hname : used name) (id : NodeId) :
    Tracks ρ used all d [.locate name id] [.locate (referAt ρ d (a.get? id) name) id] where
  references := .cons (.refer hname id) .nil
  run meets alike taken := by
    obtain ⟨last, hlast, rfl⟩ := followed.accepted
    rw [meets.get?_locate hlast followed.distinct]
    rw [runAll_singleton, run_locate] at taken
    cases taken
    have hdistance := alike.distance?_eq followed.exchange followed.fresh hname
    refine ⟨_, by rw [runAll_singleton, run_locate], ?_⟩
    rw [hdistance]
    split
    · exact alike
    · exact alike.record id _

/-- A reference is read under its new name as it was under its old one. -/
theorem reference (followed : Followed ρ used a all) {name : String} (hname : used name) (id : NodeId) :
    Tracks ρ used all d [.refuse name, .locate name id]
      [.refuse (referAt ρ d (a.get? id) name), .locate (referAt ρ d (a.get? id) name) id] where
  references := .cons (.refer hname id) .nil
  run := by
    intro _ n' m regions meets alike taken
    obtain ⟨n, hk, hm⟩ := runAll_cons_eq_ok.1 taken
    obtain ⟨hready, rfl⟩ := run_refuse_eq_ok.1 hk
    have meets' : Meets all [.locate name id] n regions := by
      apply Meets.next (a := [.refuse name]) meets
      rw [runAll_singleton]
      exact hk
    obtain ⟨m', hm', alike'⟩ := (locate followed hname id).run meets' alike hm
    refine ⟨m', runAll_cons_eq_ok.2 ⟨n', ?_, hm'⟩, alike'⟩
    obtain ⟨last, hlast, rfl⟩ := followed.accepted
    rw [← alike.innermost_eq followed.exchange followed.fresh hname,
      ← meets'.get?_locate hlast followed.distinct] at hready
    exact run_refuse_eq_ok.2 ⟨hready, rfl⟩

/-- The inside of a region is followed with the scope of the renaming one scope further out. -/
theorem within (followed : Followed ρ used a all) {region region' : Region} {body body' : List Step}
    (nested : Nested d d') (regions : Region.Alike d' region region')
    (h : Tracks ρ used all d' body body') :
    Tracks ρ used all d [.within region body] [.within region' body'] where
  references := by
    simp only [referencesOfAll, Step.references, List.append_nil]
    rw [List.forall₂_map_left_iff, List.forall₂_map_right_iff]
    exact h.references.imp fun r r' hr => ⟨hr.id_eq, hr.used, hr.name_eq⟩
  run meets alike taken := by
    rw [runAll_singleton] at taken
    obtain ⟨k, hk, rfl⟩ := run_within_eq_ok.1 taken
    have entered := alike.enter followed.exchange followed.this_used nested regions
    obtain ⟨k', hk', alike'⟩ := h.run meets.inside entered hk
    rw [runAll_singleton]
    exact ⟨_, run_within_eq_ok.2 ⟨k', hk', rfl⟩, alike.leave alike' nested regions⟩

end Tracks

end Step

/-! ### Trees -/

section Trees

open Step

variable {ρ : String → String} {used : String → Prop} {a : Annotations} {all : List Step}

theorem Param.tracks (followed : Followed ρ used a all) (d : Option Nat) (ps : List Param)
    (h : ∀ name ∈ ps.flatMap Param.names, used name) :
    Tracks ρ used all d (Param.steps ps) (Param.steps (ps.map (Param.rename ρ d))) := by
  induction ps with
  | nil => exact .nil
  | cons p rest ih =>
      simp only [List.flatMap_cons, Param.names, List.forall_mem_append, List.forall_mem_cons] at h
      have hname : used p.name := h.1.1
      exact (Tracks.declare followed.exchange hname).append
        ((Tracks.define followed.exchange hname).append (ih h.2))

/-- The name of a function or class in the scope of the renaming does not change. -/
theorem nameAt_eq_self {d : Option Nat} {name : String} (h : d = some 0 → ρ name = name) :
    nameAt ρ d name = name := by
  unfold nameAt
  split
  · next hd => exact h hd
  · rfl

/-- A function or class is declared under the same name as before. -/
theorem Step.Tracks.introduce (followed : Followed ρ used a all) {d : Option Nat} {name : String}
    (hname : used name) (stable : d = some 0 → ρ name = name) :
    Tracks ρ used all d [.declare name, .define name] [.declare name, .define name] := by
  have hdeclare : Tracks ρ used all d [.declare name] [.declare (nameAt ρ d name)] :=
    .declare followed.exchange hname
  have hdefine : Tracks ρ used all d [.define name] [.define (nameAt ρ d name)] :=
    .define followed.exchange hname
  rw [nameAt_eq_self stable] at hdeclare hdefine
  exact hdeclare.append hdefine

theorem used_displayName (followed : Followed ρ used a all) {f : Function}
    (h : ∀ name ∈ f.names, used name) : used f.displayName := by
  rcases f.displayName_mem with hname | hname
  · exact h _ hname
  · rw [hname]
    exact followed.unnamed_used

mutual

/-- The steps of a renamed expression. -/
theorem Expr.tracks (followed : Followed ρ used a all) :
    ∀ (e : Expr) (site : Site), (∀ name ∈ e.names, used name) →
      Tracks ρ used all site.distance e.steps (e.rename ρ a site).steps
  | .number _, _, _ => .nil
  | .text _, _, _ => .nil
  | .bool _, _, _ => .nil
  | .var name id, site, h => .reference followed (h name List.mem_cons_self) id
  | .this id, site, _ => by
      have htracks := Tracks.locate (d := site.distance) followed followed.this_used id
      rwa [referAt, followed.exchange.this_eq, ite_self] at htracks
  | .binary op left right, site, h => by
      simp only [Expr.names, List.forall_mem_append] at h
      have hleft := left.tracks followed (site.child 0) h.1
      have hright := right.tracks followed (site.child 1) h.2
      rw [Site.distance_child] at hleft hright
      exact hleft.append hright
  | .logical op left right, site, h => by
      simp only [Expr.names, List.forall_mem_append] at h
      have hleft := left.tracks followed (site.child 0) h.1
      have hright := right.tracks followed (site.child 1) h.2
      rw [Site.distance_child] at hleft hright
      exact hleft.append hright
  | .unary op operand, site, h => by
      have hoperand := operand.tracks followed (site.child 0) h
      rwa [Site.distance_child] at hoperand
  | .member object property, site, h => by
      simp only [Expr.names, List.forall_mem_append] at h
      have hobject := object.tracks followed (site.child 0) h.1
      rwa [Site.distance_child] at hobject
  | .call callee args, site, h => by
      simp only [Expr.names, List.forall_mem_append] at h
      have hcallee := callee.tracks followed (site.child 0) h.1
      have hargs := Expr.tracksOfAll followed args (site.child 1) h.2
      rw [Site.distance_child] at hcallee hargs
      exact hcallee.append hargs
  | .lambda f, site, h => f.tracks followed .function site h

theorem Expr.tracksOfAll (followed : Followed ρ used a all) :
    ∀ (es : List Expr) (site : Site), (∀ name ∈ Expr.namesOfAll es, used name) →
      Tracks ρ used all site.distance (Expr.stepsOfAll es)
        (Expr.stepsOfAll (Expr.renameAll ρ a site es))
  | [], _, _ => .nil
  | e :: rest, site, h => by
      simp only [Expr.namesOfAll, List.forall_mem_append] at h
      have hfirst := e.tracks followed (site.child 0) h.1
      have hrest := Expr.tracksOfAll followed rest (site.child 1) h.2
      rw [Site.distance_child] at hfirst hrest
      exact hfirst.append hrest

/-- The steps of a renamed statement. If it lies directly in the scope of the renaming, then its functions and
    classes keep their names. -/
theorem Stmt.tracks (followed : Followed ρ used a all) :
    ∀ (s : Stmt) (site : Site), (∀ name ∈ s.names, used name) →
      (site.distance = some 0 → ∀ f ∈ s.functionNames, ρ f = f) →
        Tracks ρ used all site.distance s.steps (s.rename ρ a site).steps
  | .expr e, site, h, _ => by
      have he := e.tracks followed (site.child 0) h
      rwa [Site.distance_child] at he
  | .declare name value, site, h, _ => by
      simp only [Stmt.names, List.forall_mem_cons] at h
      have hvalue := value.tracks followed (site.child 0) h.2
      rw [Site.distance_child] at hvalue
      exact (Tracks.declare followed.exchange h.1).append
        (hvalue.append (.define followed.exchange h.1))
  | .assign target value, site, h, _ => by
      simp only [Stmt.names, List.forall_mem_cons] at h
      have hvalue := value.tracks followed (site.child 0) h.2
      rw [Site.distance_child] at hvalue
      exact hvalue.append (.locate followed h.1 target.id)
  | .update target op, site, h, _ => .locate followed (h target.name List.mem_cons_self) target.id
  | .setMember object property value, site, h, _ => by
      simp only [Stmt.names, List.forall_mem_append, List.forall_mem_cons] at h
      have hobject := object.tracks followed (site.child 0) h.1
      have hvalue := value.tracks followed (site.child 1) h.2.2
      rw [Site.distance_child] at hobject hvalue
      exact hobject.append hvalue
  | .block body, site, h, _ => by
      have hbody := Stmt.tracksOfAll followed body (site.enter ρ (Stmt.functionNamesOfAll body)) h
        fun hd f hf => Site.eq_of_mem_functions hd hf
      exact .within followed (site.nested_enter ρ _) (.block _ _) hbody
  | .ifElse test thenBranch none, site, h, stable => by
      simp only [Stmt.names, List.forall_mem_append] at h
      have htest := test.tracks followed (site.child 0) h.1
      have hthen := thenBranch.tracks followed (site.child 1) h.2 (by rwa [Site.distance_child])
      rw [Site.distance_child] at htest hthen
      exact htest.append hthen
  | .ifElse test thenBranch (some elseBranch), site, h, stable => by
      simp only [Stmt.names, List.forall_mem_append] at h
      simp only [Stmt.functionNames, List.forall_mem_append] at stable
      have htest := test.tracks followed (site.child 0) h.1.1
      have hthen := thenBranch.tracks followed (site.child 1) h.1.2
        (by rw [Site.distance_child]; exact fun hd => (stable hd).1)
      have helse := elseBranch.tracks followed (site.child 2) h.2
        (by rw [Site.distance_child]; exact fun hd => (stable hd).2)
      rw [Site.distance_child] at htest hthen helse
      exact htest.append (hthen.append helse)
  | .whileLoop test body, site, h, stable => by
      simp only [Stmt.names, List.forall_mem_append] at h
      have htest := test.tracks followed (site.child 0) h.1
      have hbody := body.tracks followed (site.child 1) h.2 (by rwa [Site.distance_child])
      rw [Site.distance_child] at htest hbody
      exact htest.append hbody
  | .function f, site, h, stable => by
      have hname : used f.displayName := used_displayName followed h
      have hintroduce := Tracks.introduce followed hname fun hd => stable hd _ List.mem_cons_self
      rw [Stmt.rename, Stmt.steps, Stmt.steps, Function.displayName_rename]
      exact hintroduce.append (f.tracks followed .function site h)
  | .ret none, _, _, _ => .exit
  | .ret (some value), site, h, _ => by
      have hvalue := value.tracks followed (site.child 0) h
      rw [Site.distance_child] at hvalue
      exact Tracks.exit.append hvalue
  | .classDecl name methods, site, h, stable => by
      simp only [Stmt.names, List.forall_mem_cons] at h
      have hintroduce := Tracks.introduce followed h.1 fun hd => stable hd _ List.mem_cons_self
      have hmethods := Function.tracksOfAll followed methods site.enterClass h.2
      exact hintroduce.append (.within followed site.nested_enterClass
        (.methods _ _ site.distance_enterClass_ne) hmethods)

theorem Stmt.tracksOfAll (followed : Followed ρ used a all) :
    ∀ (ss : List Stmt) (site : Site), (∀ name ∈ Stmt.namesOfAll ss, used name) →
      (site.distance = some 0 → ∀ f ∈ Stmt.functionNamesOfAll ss, ρ f = f) →
        Tracks ρ used all site.distance (Stmt.stepsOfAll ss)
          (Stmt.stepsOfAll (Stmt.renameAll ρ a site ss))
  | [], _, _, _ => .nil
  | s :: rest, site, h, stable => by
      simp only [Stmt.namesOfAll, List.forall_mem_append] at h
      simp only [Stmt.functionNamesOfAll, List.flatMap_cons, List.forall_mem_append] at stable
      have hfirst := s.tracks followed (site.child 0) h.1
        (by rw [Site.distance_child]; exact fun hd => (stable hd).1)
      have hrest := Stmt.tracksOfAll followed rest (site.child 1) h.2
        (by rw [Site.distance_child]; exact fun hd => (stable hd).2)
      rw [Site.distance_child] at hfirst hrest
      exact hfirst.append hrest

/-- The steps of a renamed function. -/
theorem Function.tracks (followed : Followed ρ used a all) (kind : FunctionKind) :
    ∀ (f : Function) (site : Site), (∀ name ∈ f.names, used name) →
      Tracks ρ used all site.distance (f.steps kind) ((f.rename ρ a site).steps kind)
  | ⟨name, params, returnType, body⟩, site, h => by
      simp only [Function.names, List.forall_mem_append] at h
      have hparams := Param.tracks followed
        (site.enter ρ (Stmt.functionNamesOfAll body)).distance params h.1.1.2
      have hbody := Stmt.tracksOfAll followed body (site.enter ρ (Stmt.functionNamesOfAll body)) h.2
        fun hd f hf => Site.eq_of_mem_functions hd hf
      exact .within followed (site.nested_enter ρ _) (.function _ _ _) (hparams.append hbody)

theorem Function.tracksOfAll (followed : Followed ρ used a all) :
    ∀ (fs : List Function) (site : Site), (∀ name ∈ Function.namesOfAll fs, used name) →
      Tracks ρ used all site.distance (Function.stepsOfAll fs)
        (Function.stepsOfAll (Function.renameAll ρ a site fs))
  | [], _, _ => .nil
  | f :: rest, site, h => by
      simp only [Function.namesOfAll, List.forall_mem_append] at h
      have hfirst := f.tracks followed .method (site.child 0) h.1
      have hrest := Function.tracksOfAll followed rest (site.child 1) h.2
      rw [Site.distance_child] at hfirst hrest
      exact hfirst.append hrest

end

/-- The steps of a renamed program. The top level is never the scope of the renaming. -/
theorem Program.tracks (followed : Followed ρ used a all) {p : Program}
    (h : ∀ name ∈ Program.names p, used name) (site : Site) (top : site.distance = none) :
    Tracks ρ used all none (Program.steps p) (Program.steps (Program.rename ρ a site p)) := by
  induction p generalizing site with
  | nil => exact .nil
  | cons node rest ih =>
      simp only [Program.names, Program.statements, List.map_cons, Stmt.namesOfAll,
        List.forall_mem_append] at h
      have htop : ∀ number, (site.child number).distance = none := by
        intro number
        rw [Site.distance_child, top]
      have hfirst := node.value.tracks followed (site.child 0) h.1
        (by rw [htop]; intro hd; cases hd)
      rw [htop] at hfirst
      exact hfirst.append (ih h.2 (site.child 1) (htop 1))

end Trees

/-- The analysis accepts a renamed program with the same distances. -/
theorem resolve_rename {ρ : String → String} {used : String → Prop} {p : Program} {a : Annotations}
    (followed : Step.Followed ρ used a (Program.steps p)) (h : ∀ name ∈ Program.names p, used name)
    (path : List Nat) : resolve (Program.rename ρ a (.outside path) p) = .ok a := by
  obtain ⟨last, hlast, rfl⟩ := followed.accepted
  have htracks := Program.tracks followed h (.outside path) rfl
  have hinitial : NamesAlike ρ used none .initial .initial :=
    ⟨.away [], nofun, rfl, rfl, rfl⟩
  obtain ⟨last', hlast', alike⟩ := htracks.run .start hinitial hlast
  exact (resolve_eq_ok_iff _ _).2 ⟨last', hlast', alike.found⟩

end Kiln
