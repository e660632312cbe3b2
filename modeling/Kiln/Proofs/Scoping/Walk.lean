/-
Module: Kiln.Proofs.Scoping.Walk
Purpose: What the scope analysis knows at each point of a program. Steps leave all scopes but the innermost
  alone, and touch the distances of their own references only. So the names known when a reference is
  met decide its distance for good, provided that no two references share an id.
Main exports: Reference, Step.referencesOfAll, Step.marked, Step.idsOfAll, Names.Grows, Step.Meets,
  Step.Meets.exists_runAll, Step.Meets.length_regions, Step.Meets.get?_locate
-/
import Kiln.Proofs.Scoping.Steps

namespace Kiln

/-- A reference to a variable, seen from outside: `depth` scopes are opened between that place and it. -/
structure Reference where
  name : String
  id : NodeId
  depth : Nat
deriving DecidableEq, Repr, Inhabited

/-- The reference, seen from outside one more scope. -/
def Reference.deeper (r : Reference) : Reference := { r with depth := r.depth + 1 }

namespace Step

mutual

/-- The references of a step. -/
def references : Step → List Reference
  | .locate name id => [⟨name, id, 0⟩]
  | .within _ body => (referencesOfAll body).map Reference.deeper
  | _ => []

/-- The references of several steps. -/
def referencesOfAll : List Step → List Reference
  | [] => []
  | step :: rest => step.references ++ referencesOfAll rest

end

/-- The ids of the references of several steps. -/
def idsOfAll (steps : List Step) : List NodeId := (referencesOfAll steps).map (·.id)

/-- The names that a step puts into the innermost scope. -/
def marks : Step → List String
  | .declare name => [name]
  | .define name => [name]
  | _ => []

/-- The names that several steps put into the innermost scope. -/
def marked (steps : List Step) : List String := steps.flatMap marks

theorem referencesOfAll_append (a b : List Step) :
    referencesOfAll (a ++ b) = referencesOfAll a ++ referencesOfAll b := by
  induction a with
  | nil => rfl
  | cons step rest ih => simp [referencesOfAll, ih]

theorem idsOfAll_append (a b : List Step) : idsOfAll (a ++ b) = idsOfAll a ++ idsOfAll b := by
  simp [idsOfAll, referencesOfAll_append]

theorem idsOfAll_cons (step : Step) (rest : List Step) :
    idsOfAll (step :: rest) = step.references.map (·.id) ++ idsOfAll rest := by
  simp [idsOfAll, referencesOfAll]

theorem ids_within (region : Region) (body : List Step) :
    (Step.within region body).references.map (·.id) = idsOfAll body := by
  simp [references, idsOfAll, Reference.deeper, Function.comp_def]

@[simp]
theorem marked_append (a b : List Step) : marked (a ++ b) = marked a ++ marked b := by
  simp [marked]

@[simp]
theorem marked_cons (step : Step) (rest : List Step) :
    marked (step :: rest) = step.marks ++ marked rest := by
  simp [marked]

@[simp]
theorem marked_nil : marked [] = [] := rfl

end Step

/-! ### Steps touch the innermost scope only -/

/-- From `n` to `m` the innermost scope has gained the names of the list, and no other scope has changed.
    Names of the top level are not followed. -/
def Names.Grows (n m : Names) (names : List String) : Prop :=
  (n.locals = [] ∧ m.locals = []) ∨
    ∃ inner inner' outer, n.locals = inner :: outer ∧ m.locals = inner' :: outer ∧
      ∀ x, x ∈ inner' ↔ x ∈ inner ∨ x ∈ names

namespace Names.Grows

theorem of_locals_eq {n m : Names} (h : m.locals = n.locals) : Grows n m [] := by
  cases hn : n.locals with
  | nil => exact .inl ⟨hn, by rw [h, hn]⟩
  | cons inner outer => exact .inr ⟨inner, inner, outer, hn, by rw [h, hn], by simp⟩

theorem mark (n : Names) (name : String) (ready : Bool) : Grows n (n.mark name ready) [name] := by
  cases hn : n.locals with
  | nil => exact .inl ⟨hn, by simp [Names.mark, hn]⟩
  | cons inner outer =>
      refine .inr ⟨inner, inner.insert name ready, outer, hn, by simp [Names.mark, hn], ?_⟩
      intro x
      rw [Std.ExtTreeMap.mem_insert, Std.compare_eq_iff_eq, List.mem_singleton, or_comm,
        eq_comm (a := name)]

theorem trans {n m k : Names} {first second : List String} (h : Grows n m first)
    (h' : Grows m k second) : Grows n k (first ++ second) := by
  rcases h with ⟨hn, hm⟩ | ⟨inner, inner', outer, hn, hm, hx⟩
  · rcases h' with ⟨_, hk⟩ | ⟨_, _, _, hm', _⟩
    · exact .inl ⟨hn, hk⟩
    · rw [hm] at hm'
      cases hm'
  · rcases h' with ⟨hm', _⟩ | ⟨_, inner'', _, hm', hk, hx'⟩
    · rw [hm] at hm'
      cases hm'
    · rw [hm] at hm'
      cases hm'
      refine .inr ⟨inner, inner'', outer, hn, hk, fun x => ?_⟩
      rw [hx', hx, List.mem_append, or_assoc]

end Names.Grows

theorem Names.locals_enter (n : Names) (region : Region) :
    ∃ table, (n.enter region).locals = table :: n.locals := by
  cases region with
  | block => exact ⟨_, rfl⟩
  | function => exact ⟨_, rfl⟩
  | methods => exact ⟨_, rfl⟩

theorem Names.locals_leave (n m : Names) (region : Region) :
    (n.leave m region).locals = m.locals.tail := by
  cases region <;> rfl

/-- Leaving a region whose inside touched its own scope only restores the scopes around it. -/
theorem Names.Grows.locals_leave {n k : Names} {region : Region} {names : List String}
    (h : (n.enter region).Grows k names) : (n.leave k region).locals = n.locals := by
  obtain ⟨table, hn⟩ := n.locals_enter region
  rw [Names.locals_leave]
  rcases h with ⟨hn', _⟩ | ⟨_, _, _, hn', hk, _⟩
  · rw [hn] at hn'
    cases hn'
  · rw [hn] at hn'
    cases hn'
    rw [hk, List.tail_cons]

namespace Step

mutual

/-- A step adds its marks to the innermost scope and changes no other one. -/
theorem run_grows : ∀ (step : Step) {n m : Names}, step.run n = .ok () m → n.Grows m step.marks
  | .declare name, n, m, h => by
      rw [(run_declare_eq_ok.1 h).2]
      exact .mark n name false
  | .define name, n, m, h => by
      rw [run_define_eq_ok.1 h]
      exact .mark n name true
  | .refuse _, n, m, h => by
      rw [(run_refuse_eq_ok.1 h).2]
      exact .of_locals_eq rfl
  | .locate name id, n, m, h => by
      rw [run_locate] at h
      cases h
      apply Names.Grows.of_locals_eq
      split <;> rfl
  | .exit, n, m, h => by
      rw [(run_exit_eq_ok.1 h).2]
      exact .of_locals_eq rfl
  | .within region body, n, m, h => by
      obtain ⟨k, hk, rfl⟩ := run_within_eq_ok.1 h
      exact .of_locals_eq (runAll_grows body hk).locals_leave

/-- Steps add their marks to the innermost scope and change no other one. -/
theorem runAll_grows :
    ∀ (steps : List Step) {n m : Names}, runAll steps n = .ok () m → n.Grows m (marked steps)
  | [], n, m, h => by
      rw [runAll_nil_eq_ok.1 h]
      exact .of_locals_eq rfl
  | step :: rest, n, m, h => by
      obtain ⟨k, hk, hm⟩ := runAll_cons_eq_ok.1 h
      rw [marked_cons]
      exact (run_grows step hk).trans (runAll_grows rest hm)

end

/-! ### Steps touch the distances of their own references only -/

theorem found_mark (n : Names) (name : String) (ready : Bool) :
    (n.mark name ready).found = n.found := by
  unfold Names.mark
  split <;> rfl

theorem found_enter (n : Names) (region : Region) : (n.enter region).found = n.found := by
  cases region with
  | block => rfl
  | function => rfl
  | methods => exact found_mark _ _ _

theorem found_leave (n m : Names) (region : Region) : (n.leave m region).found = m.found := by
  cases region <;> rfl

mutual

/-- A step leaves the distances of all references but its own alone. -/
theorem run_get?_of_notMem : ∀ (step : Step) {n m : Names} {id : NodeId}, step.run n = .ok () m →
    id ∉ step.references.map (·.id) → m.found.get? id = n.found.get? id
  | .declare name, n, m, id, h, _ => by
      rw [(run_declare_eq_ok.1 h).2, found_mark]
  | .define name, n, m, id, h, _ => by
      rw [run_define_eq_ok.1 h, found_mark]
  | .refuse _, n, m, id, h, _ => by
      rw [(run_refuse_eq_ok.1 h).2]
  | .locate name other, n, m, id, h, hid => by
      rw [run_locate] at h
      cases h
      have hne : other ≠ id := by
        rintro rfl
        simp [references] at hid
      split
      · rfl
      · simp [hne]
  | .exit, n, m, id, h, _ => by
      rw [(run_exit_eq_ok.1 h).2]
  | .within region body, n, m, id, h, hid => by
      obtain ⟨k, hk, rfl⟩ := run_within_eq_ok.1 h
      rw [ids_within] at hid
      rw [found_leave, runAll_get?_of_notMem body hk hid, found_enter]

/-- Steps leave the distances of all references but their own alone. -/
theorem runAll_get?_of_notMem : ∀ (steps : List Step) {n m : Names} {id : NodeId},
    runAll steps n = .ok () m → id ∉ idsOfAll steps → m.found.get? id = n.found.get? id
  | [], n, m, id, h, _ => by
      rw [runAll_nil_eq_ok.1 h]
  | step :: rest, n, m, id, h, hid => by
      obtain ⟨k, hk, hm⟩ := runAll_cons_eq_ok.1 h
      rw [idsOfAll_cons, List.mem_append, not_or] at hid
      rw [runAll_get?_of_notMem rest hm hid.2, run_get?_of_notMem step hk hid.1]

end

/-! ### What the analysis meets on its way -/

/-- On its way through the steps `all`, which begins with no names, the analysis meets `steps`: it knows
    `names` then, and has entered `regions`, of which the innermost comes first. -/
inductive Meets (all : List Step) : List Step → Names → List Region → Prop where
  | start : Meets all all .initial []
  | first {a b : List Step} {names : Names} {regions : List Region}
      (h : Meets all (a ++ b) names regions) : Meets all a names regions
  | next {a b : List Step} {names later : Names} {regions : List Region}
      (h : Meets all (a ++ b) names regions) (taken : runAll a names = .ok () later) :
      Meets all b later regions
  | inside {region : Region} {body : List Step} {names : Names} {regions : List Region}
      (h : Meets all [.within region body] names regions) :
      Meets all body (names.enter region) (region :: regions)

namespace Meets

variable {all steps : List Step} {names : Names} {regions : List Region}

/-- If all steps succeed, then so do those met on the way. -/
theorem exists_runAll {last : Names} (accepted : runAll all .initial = .ok () last)
    (h : Meets all steps names regions) : ∃ m, runAll steps names = .ok () m := by
  induction h with
  | start => exact ⟨last, accepted⟩
  | first _ ih =>
      obtain ⟨m, hm⟩ := ih
      obtain ⟨k, hk, _⟩ := runAll_append_eq_ok.1 hm
      exact ⟨k, hk⟩
  | next _ taken ih =>
      obtain ⟨m, hm⟩ := ih
      obtain ⟨k, hk, hb⟩ := runAll_append_eq_ok.1 hm
      rw [taken] at hk
      cases hk
      exact ⟨m, hb⟩
  | inside _ ih =>
      obtain ⟨m, hm⟩ := ih
      rw [runAll_singleton] at hm
      obtain ⟨k, hk, _⟩ := run_within_eq_ok.1 hm
      exact ⟨k, hk⟩

/-- There are as many scopes as regions have been entered. -/
theorem length_regions (h : Meets all steps names regions) :
    regions.length = names.locals.length := by
  induction h with
  | start => rfl
  | first _ ih => exact ih
  | next _ taken ih =>
      rcases runAll_grows _ taken with ⟨hn, hm⟩ | ⟨_, _, _, hn, hm, _⟩
      · rw [ih, hn, hm]
      · rw [ih, hn, hm, List.length_cons, List.length_cons]
  | @inside region body names regions _ ih =>
      obtain ⟨table, htable⟩ := names.locals_enter region
      rw [htable, List.length_cons, List.length_cons, ih]

/-- The references met are among all references. -/
theorem idsOfAll_subset (h : Meets all steps names regions) : idsOfAll steps ⊆ idsOfAll all := by
  induction h with
  | start => exact List.Subset.refl _
  | first _ ih =>
      rw [idsOfAll_append] at ih
      exact List.Subset.trans (List.subset_append_left _ _) ih
  | next _ _ ih =>
      rw [idsOfAll_append] at ih
      exact List.Subset.trans (List.subset_append_right _ _) ih
  | inside _ ih =>
      rw [idsOfAll_cons, ids_within] at ih
      exact List.Subset.trans (List.subset_append_left _ _) ih

theorem mem_idsOfAll {name : String} {id : NodeId} (h : Meets all [.locate name id] names regions) :
    id ∈ idsOfAll all := by
  apply h.idsOfAll_subset
  simp [idsOfAll, referencesOfAll, references]

/-- The final distances of the references met, when all ids differ: none of them is known before its steps
    are taken, and nothing later changes them. -/
theorem get?_found {last : Names} (accepted : runAll all .initial = .ok () last)
    (distinct : (idsOfAll all).Nodup) (h : Meets all steps names regions) :
    (idsOfAll steps).Nodup ∧ ∃ m, runAll steps names = .ok () m ∧ ∀ id ∈ idsOfAll steps,
      names.found.get? id = none ∧ m.found.get? id = last.found.get? id := by
  induction h with
  | start => exact ⟨distinct, last, accepted, fun id _ => ⟨Annotations.get?_empty id, rfl⟩⟩
  | first _ ih =>
      obtain ⟨nodup, m, hm, hfound⟩ := ih
      obtain ⟨k, hk, hb⟩ := runAll_append_eq_ok.1 hm
      rw [idsOfAll_append] at nodup hfound
      obtain ⟨nodupA, _, apart⟩ := List.nodup_append.1 nodup
      refine ⟨nodupA, k, hk, fun id hid => ?_⟩
      obtain ⟨hnone, hlast⟩ := hfound id (List.mem_append_left _ hid)
      have hlater : id ∉ idsOfAll _ := fun h => apart id hid id h rfl
      exact ⟨hnone, by rw [← hlast, runAll_get?_of_notMem _ hb hlater]⟩
  | next _ taken ih =>
      obtain ⟨nodup, m, hm, hfound⟩ := ih
      obtain ⟨k, hk, hb⟩ := runAll_append_eq_ok.1 hm
      rw [taken] at hk
      cases hk
      rw [idsOfAll_append] at nodup hfound
      obtain ⟨_, nodupB, apart⟩ := List.nodup_append.1 nodup
      refine ⟨nodupB, m, hb, fun id hid => ?_⟩
      obtain ⟨hnone, hlast⟩ := hfound id (List.mem_append_right _ hid)
      have hbefore : id ∉ idsOfAll _ := fun h => apart id h id hid rfl
      exact ⟨by rw [runAll_get?_of_notMem _ taken hbefore, hnone], hlast⟩
  | inside _ ih =>
      obtain ⟨nodup, m, hm, hfound⟩ := ih
      rw [runAll_singleton] at hm
      obtain ⟨k, hk, rfl⟩ := run_within_eq_ok.1 hm
      rw [idsOfAll_cons, ids_within] at nodup hfound
      refine ⟨(List.nodup_append.1 nodup).1, k, hk, fun id hid => ?_⟩
      obtain ⟨hnone, hlast⟩ := hfound id (List.mem_append_left _ hid)
      rw [found_leave] at hlast
      exact ⟨by rw [found_enter, hnone], hlast⟩

/-- The distance of a reference is the one it has when it is met. -/
theorem get?_locate {last : Names} (accepted : runAll all .initial = .ok () last)
    (distinct : (idsOfAll all).Nodup) {name : String} {id : NodeId} {rest : List Step}
    (h : Meets all (.locate name id :: rest) names regions) :
    last.found.get? id = names.distance? name := by
  have here : Meets all [.locate name id] names regions := h.first (a := [.locate name id])
  obtain ⟨-, m, hm, hfound⟩ := here.get?_found accepted distinct
  obtain ⟨hnone, hlast⟩ := hfound id (by simp [idsOfAll, referencesOfAll, references])
  rw [runAll_singleton, run_locate] at hm
  cases hm
  rw [← hlast]
  cases names.distance? name with
  | none => exact hnone
  | some d => simp

end Meets

end Step

/-- A name with a distance is known to the scope at that distance. -/
theorem Names.exists_table_of_distance? {n : Names} {name : String} {d : Nat}
    (h : n.distance? name = some d) : ∃ table, n.locals[d]? = some table ∧ name ∈ table := by
  obtain ⟨hlt, hname, -⟩ := List.findIdx?_eq_some_iff_getElem.1 h
  exact ⟨_, List.getElem?_eq_getElem hlt, hname⟩

end Kiln
