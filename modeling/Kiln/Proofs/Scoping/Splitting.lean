/-
Module: Kiln.Proofs.Scoping.Splitting
Purpose: The scope analysis of a program in two pieces. The analysis of the second piece begins anew, without
  the top-level names of the first. It can only find fewer reasons to reject the piece, and it finds the same
  distances, since no distance ever leads to the top level.
Main exports: Names.Restricts, Step.runAll_restricts, resolve_append
-/
import Kiln.Proofs.Scoping.Walk

namespace Kiln

/-- The second names are the first ones without some of the top-level names, and without the distances that were
    found earlier. -/
structure Names.Restricts (earlier : Annotations) (x y : Names) : Prop where
  locals : x.locals = y.locals
  topLevel : ∀ {name : String} {ready : Bool}, y.topLevel[name]? = some ready →
    x.topLevel[name]? = some ready
  enclosing : x.enclosing = y.enclosing
  found : x.found = earlier.extend y.found

theorem Annotations.record_extend (earlier later : Annotations) (id : NodeId) (d : Nat) :
    (earlier.extend later).record id d = earlier.extend (later.record id d) := by
  apply Annotations.ext_get?
  intro other
  simp only [get?_record, get?_extend]
  split <;> rfl

namespace Names.Restricts

variable {earlier : Annotations} {x y : Names}

theorem innermost (h : Restricts earlier x y) {name : String} {ready : Bool}
    (hy : y.innermost[name]? = some ready) : x.innermost[name]? = some ready := by
  unfold Names.innermost at hy ⊢
  rw [h.locals]
  cases hlocals : y.locals with
  | nil =>
      rw [hlocals] at hy
      exact h.topLevel hy
  | cons table outer =>
      rw [hlocals] at hy
      exact hy

theorem contains_innermost (h : Restricts earlier x y) {name : String}
    (hx : x.innermost.contains name = false) : y.innermost.contains name = false := by
  cases hy : y.innermost[name]? with
  | none => rw [Std.ExtTreeMap.contains_eq_isSome_getElem?, hy, Option.isSome_none]
  | some ready =>
      rw [Std.ExtTreeMap.contains_eq_isSome_getElem?, h.innermost hy] at hx
      cases hx

theorem distance? (h : Restricts earlier x y) (name : String) :
    x.distance? name = y.distance? name := by
  rw [Names.distance?, Names.distance?, h.locals]

theorem mark (h : Restricts earlier x y) (name : String) (ready : Bool) :
    Restricts earlier (x.mark name ready) (y.mark name ready) := by
  unfold Names.mark
  rw [h.locals]
  cases y.locals with
  | nil =>
      refine ⟨rfl, ?_, h.enclosing, h.found⟩
      intro other r hr
      simp only [Std.ExtTreeMap.getElem?_insert] at hr ⊢
      split
      · next hsame => rwa [if_pos hsame] at hr
      · next hne =>
        rw [if_neg hne] at hr
        exact h.topLevel hr
  | cons table outer => exact ⟨rfl, h.topLevel, h.enclosing, h.found⟩

theorem enter (h : Restricts earlier x y) (region : Region) :
    Restricts earlier (x.enter region) (y.enter region) := by
  have hpush : Restricts earlier x.push y.push :=
    ⟨by rw [Names.push, Names.push, h.locals], h.topLevel, h.enclosing, h.found⟩
  cases region with
  | block body => exact hpush
  | function f => exact ⟨hpush.locals, hpush.topLevel, rfl, hpush.found⟩
  | methods functions => exact hpush.mark "this" true

theorem leave {x' y' : Names} (h : Restricts earlier x y) (h' : Restricts earlier x' y')
    (region : Region) : Restricts earlier (x.leave x' region) (y.leave y' region) := by
  have hpop : x'.locals.tail = y'.locals.tail := by rw [h'.locals]
  cases region with
  | block body => exact ⟨hpop, h'.topLevel, h'.enclosing, h'.found⟩
  | function f => exact ⟨hpop, h'.topLevel, h.enclosing, h'.found⟩
  | methods functions => exact ⟨hpop, h'.topLevel, h'.enclosing, h'.found⟩

end Names.Restricts

namespace Step

mutual

/-- What succeeds with more top-level names succeeds with fewer, and does the same. -/
theorem run_restricts {earlier : Annotations} : ∀ (step : Step) {x x' y : Names},
    x.Restricts earlier y → step.run x = .ok () x' →
      ∃ y', step.run y = .ok () y' ∧ x'.Restricts earlier y'
  | .declare name, x, x', y, h, hrun => by
      obtain ⟨hnew, rfl⟩ := run_declare_eq_ok.1 hrun
      exact ⟨_, run_declare_eq_ok.2 ⟨h.contains_innermost hnew, rfl⟩, h.mark name false⟩
  | .define name, x, x', y, h, hrun => by
      cases run_define_eq_ok.1 hrun
      exact ⟨_, run_define_eq_ok.2 rfl, h.mark name true⟩
  | .refuse name, x, x', y, h, hrun => by
      obtain ⟨hready, rfl⟩ := run_refuse_eq_ok.1 hrun
      exact ⟨y, run_refuse_eq_ok.2 ⟨fun hy => hready (h.innermost hy), rfl⟩, h⟩
  | .locate name id, x, x', y, h, hrun => by
      rw [run_locate, h.distance?] at hrun
      cases hrun
      refine ⟨_, run_locate y, ?_⟩
      cases y.distance? name with
      | none => exact h
      | some d =>
          have hfound : x.found.record id d = earlier.extend (y.found.record id d) := by
            rw [h.found, Annotations.record_extend]
          exact ⟨h.locals, h.topLevel, h.enclosing, hfound⟩
  | .exit, x, x', y, h, hrun => by
      obtain ⟨hinside, rfl⟩ := run_exit_eq_ok.1 hrun
      rw [h.enclosing] at hinside
      exact ⟨y, run_exit_eq_ok.2 ⟨hinside, rfl⟩, h⟩
  | .within region body, x, x', y, h, hrun => by
      obtain ⟨k, hk, rfl⟩ := run_within_eq_ok.1 hrun
      obtain ⟨k', hk', hinside⟩ := runAll_restricts body (h.enter region) hk
      exact ⟨_, run_within_eq_ok.2 ⟨k', hk', rfl⟩, h.leave hinside region⟩

/-- Steps that succeed with more top-level names succeed with fewer, and do the same. -/
theorem runAll_restricts {earlier : Annotations} : ∀ (steps : List Step) {x x' y : Names},
    x.Restricts earlier y → runAll steps x = .ok () x' →
      ∃ y', runAll steps y = .ok () y' ∧ x'.Restricts earlier y'
  | [], x, x', y, h, hrun => by
      cases runAll_nil_eq_ok.1 hrun
      exact ⟨y, runAll_nil_eq_ok.2 rfl, h⟩
  | step :: rest, x, x', y, h, hrun => by
      obtain ⟨k, hk, hrest⟩ := runAll_cons_eq_ok.1 hrun
      obtain ⟨k', hk', hstep⟩ := run_restricts step h hk
      obtain ⟨y', hy', hlast⟩ := runAll_restricts rest hstep hrest
      exact ⟨y', runAll_cons_eq_ok.2 ⟨k', hk', hy'⟩, hlast⟩

end

/-! ### Steps stay where they are -/

theorem enclosing_mark (n : Names) (name : String) (ready : Bool) :
    (n.mark name ready).enclosing = n.enclosing := by
  unfold Names.mark
  split <;> rfl

mutual

theorem run_enclosing : ∀ (step : Step) {n m : Names}, step.run n = .ok () m →
    m.enclosing = n.enclosing
  | .declare name, n, m, h => by rw [(run_declare_eq_ok.1 h).2, enclosing_mark]
  | .define name, n, m, h => by rw [run_define_eq_ok.1 h, enclosing_mark]
  | .refuse _, n, m, h => by rw [(run_refuse_eq_ok.1 h).2]
  | .locate name id, n, m, h => by
      rw [run_locate] at h
      cases h
      split <;> rfl
  | .exit, n, m, h => by rw [(run_exit_eq_ok.1 h).2]
  | .within region body, n, m, h => by
      obtain ⟨k, hk, rfl⟩ := run_within_eq_ok.1 h
      have hinside := runAll_enclosing body hk
      cases region with
      | block _ => exact hinside
      | function f => rfl
      | methods functions => exact hinside.trans (enclosing_mark _ _ _)

/-- After a whole part of a program, the analysis is inside a function if it was before. -/
theorem runAll_enclosing : ∀ (steps : List Step) {n m : Names}, runAll steps n = .ok () m →
    m.enclosing = n.enclosing
  | [], n, m, h => by rw [runAll_nil_eq_ok.1 h]
  | step :: rest, n, m, h => by
      obtain ⟨k, hk, hm⟩ := runAll_cons_eq_ok.1 h
      rw [runAll_enclosing rest hm, run_enclosing step hk]

end

/-- At the end of a program, no scope but the top level is open. -/
theorem locals_eq_nil {steps : List Step} {m : Names} (h : runAll steps .initial = .ok () m) :
    m.locals = [] := by
  rcases runAll_grows steps h with ⟨_, hm⟩ | ⟨_, _, _, hinitial, _⟩
  · exact hm
  · cases hinitial

end Step

/-- A program that is accepted is accepted in two pieces, and its distances are those of the pieces. -/
theorem resolve_append {first second : Program} {a : Annotations}
    (accepted : resolve (first ++ second) = .ok a) :
    ∃ b c, resolve first = .ok b ∧ resolve second = .ok c ∧ a = b.extend c := by
  obtain ⟨last, hlast, rfl⟩ := (resolve_eq_ok_iff _ a).1 accepted
  rw [Program.steps_append] at hlast
  obtain ⟨middle, hmiddle, hrest⟩ := Step.runAll_append_eq_ok.1 hlast
  -- the second piece begins anew where nothing but top-level names and distances is left
  have hrestricts : middle.Restricts middle.found .initial := by
    constructor
    · exact Step.locals_eq_nil hmiddle
    · intro name ready hready
      simp [Names.initial] at hready
    · exact Step.runAll_enclosing _ hmiddle
    · apply Annotations.ext_get?
      intro id
      simp [Names.initial]
  obtain ⟨m, hm, hfound⟩ := Step.runAll_restricts _ hrestricts hrest
  refine ⟨middle.found, m.found, ?_, ?_, hfound.found⟩
  · exact (resolve_eq_ok_iff _ _).2 ⟨middle, hmiddle, rfl⟩
  · exact (resolve_eq_ok_iff _ _).2 ⟨m, hm, rfl⟩

end Kiln
