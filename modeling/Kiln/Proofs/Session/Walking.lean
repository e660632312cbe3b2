/-
Module: Kiln.Proofs.Session.Walking
Purpose: Distances and search. An interpreter that ignores all distances, and searches outward from the
  current scope instead, does the same as one that follows them, on every program without shadowing. Both find
  a variable in the same scope because each scope on the way holds names of its own region only. They
  part only where a name has a variable in a scope around it that the analysis did not know yet, and
  there the distances lead to nothing.
Main exports: Interpreter.walk, Interpreter.walking_eq_lexical, Interpreter.walk_eq_run
-/
import Kiln.Proofs.Scoping.Shadowing
import Kiln.Proofs.Session.Addressing

namespace Kiln

open Evaluate

/-- Runs a program without distances: every variable is searched from the current scope outward. -/
def Interpreter.walk (fuel : Nat) (i : Interpreter) (p : Program) :
    Except (Located Halt) (List Value) × World :=
  match program .walking fuel i.globals p i.world with
  | .ok values w => (.ok values, w)
  | .error e w => (.error e, w)

/-- A name with a distance is not known to any scope before that distance. -/
theorem Names.notMem_of_lt_distance? {n : Names} {name : String} {d k : Nat}
    (h : n.distance? name = some d) (hk : k < d) {table : NameTable}
    (htable : n.locals[k]? = some table) : name ∉ table := by
  obtain ⟨hlt, _, hbefore⟩ := List.findIdx?_eq_some_iff_getElem.1 h
  have hnot := hbefore k hk
  obtain ⟨_, rfl⟩ := List.getElem?_eq_some_iff.1 htable
  rw [← Std.ExtTreeMap.contains_iff_mem]
  exact hnot

namespace Setting.Sound

variable {Γ : Setting} {s : Store} {scope : ScopeId} {regions : List Region} {name : String}

/-- A scope before the globals holds names of its region only. -/
theorem mem_names_of_defines (sound : Γ.Sound s) (hchain : s.Chain Γ.globals scope regions) {k : Nat}
    (hk : k < regions.length) {t : ScopeId} (ht : s.hop? scope k = some t)
    (hd : s.defines t name = true) :
    ∃ region : Region, regions[k]? = some region ∧ name ∈ region.names := by
  obtain ⟨target, origin, region, hhop, horigin, hregion, hopens⟩ := hchain.exists_hop? hk
  rw [ht] at hhop
  cases hhop
  refine ⟨region, hregion, ?_⟩
  rcases sound.named hd with ⟨rfl, _⟩ | ⟨rfl, _⟩ | ⟨other, hother, hname⟩
  · rw [sound.globals_outside] at horigin
    cases horigin
    exact absurd rfl hopens.ne_outside
  · rw [sound.builtins_outside] at horigin
    cases horigin
    exact absurd rfl hopens.ne_outside
  · rw [horigin] at hother
    cases hother
    rw [← hopens.names_eq]
    exact hname

/-- A search from the globals ends at a name of some program or at one that is built in. -/
theorem mem_of_owner?_globals (sound : Γ.Sound s) (hne : Γ.globals ≠ Γ.builtins) {t : ScopeId}
    (ht : s.owner? Γ.globals name = some t) :
    (∃ p ∈ Γ.programs, name ∈ Program.declared p) ∨ name ∈ builtinNames := by
  by_cases hglobals : s.defines Γ.globals name = true
  · rcases sound.named hglobals with ⟨_, hdeclared⟩ | ⟨hsame, _⟩ | ⟨origin, horigin, hname⟩
    · exact .inl hdeclared
    · exact absurd hsame hne
    · rw [sound.globals_outside] at horigin
      cases horigin
      cases hname
  · rw [Store.owner?_of_not_defines sound.outward sound.globals_parent (by simpa using hglobals)] at ht
    by_cases hbuiltins : s.defines Γ.builtins name = true
    · rcases sound.named hbuiltins with ⟨hsame, _⟩ | ⟨_, hname⟩ | ⟨origin, horigin, hname⟩
      · exact absurd hsame.symm hne
      · exact .inr hname
      · rw [sound.builtins_outside] at horigin
        cases horigin
        cases hname
    · rw [Store.owner?_of_parent?_eq_none sound.builtins_parent (by simpa using hbuiltins)] at ht
      cases ht

end Setting.Sound

namespace Interpreter

variable {p : Program} {a : Annotations} {s : Store} {scope : ScopeId} {name : String} {id : NodeId}

/-- Where a variable is at its distance, a search finds it there. -/
theorem owner?_of_ownerAt? (unshadowed : p.unshadowed = true)
    (sound : (Setting.session [p] False).Sound s) {names : Names} {regions : List Region}
    (hmeets : Step.Meets (Program.steps p) [.locate name id] names regions)
    (hchain : s.Chain ⟨1⟩ scope regions) {d : Nat} (hd : names.distance? name = some d)
    {target : ScopeId} (htarget : s.ownerAt? scope d name = some target) :
    s.owner? scope name = some target := by
  obtain ⟨hhop, hdefines⟩ := Store.ownerAt?_eq_some_iff.1 htarget
  simp only [Program.unshadowed, Bool.and_eq_true] at unshadowed
  obtain ⟨_, hapart⟩ := hmeets.apart unshadowed.2
  obtain ⟨_, _, hdescribes⟩ := hmeets.describes (Program.fittingAll_steps p)
  obtain ⟨table, htable, hname⟩ := Names.exists_table_of_distance? hd
  obtain ⟨region, hregion, hnames, _⟩ := hdescribes d table htable
  rw [Store.owner?_of_hop? sound.outward hhop, Store.owner?_of_defines hdefines]
  intro k hk t ht
  rw [← Bool.not_eq_true]
  intro hthere
  have hlength := (List.getElem?_eq_some_iff.1 hregion).1
  obtain ⟨inner, hinner, hin⟩ :=
    sound.mem_names_of_defines hchain (Nat.lt_trans hk hlength) ht hthere
  rcases Region.mem_names_iff.1 hin with hdeclared | ⟨rfl, functions, rfl⟩
  · rcases Region.mem_names_iff.1 (hnames name hname) with houter | ⟨rfl, _⟩
    · exact hapart.notMem_declared hk hinner hregion hdeclared houter
    · exact hapart.notMem_outer hinner hdeclared (List.mem_append_right _ List.mem_cons_self)
  · -- the analysis would have found the `this` of the inner methods
    have hlocals : k < names.locals.length := by
      rw [← hmeets.length_regions]
      exact Nat.lt_trans hk hlength
    obtain ⟨between, hbetween, _, hthis⟩ :=
      hdescribes k _ (List.getElem?_eq_getElem hlocals)
    rw [hinner] at hbetween
    cases hbetween
    exact Names.notMem_of_lt_distance? hd hk (List.getElem?_eq_getElem hlocals) (hthis functions rfl)

/-- Where a reference without a distance finds a variable among the globals, a search finds it as well. -/
theorem owner?_of_owner?_globals (unshadowed : p.unshadowed = true)
    (sound : (Setting.session [p] False).Sound s) {names : Names} {regions : List Region}
    (hmeets : Step.Meets (Program.steps p) [.locate name id] names regions)
    (hchain : s.Chain ⟨1⟩ scope regions) {target : ScopeId}
    (htarget : s.owner? ⟨1⟩ name = some target) : s.owner? scope name = some target := by
  simp only [Program.unshadowed, Bool.and_eq_true] at unshadowed
  obtain ⟨htop, hall⟩ := unshadowed
  obtain ⟨_, hapart⟩ := hmeets.apart hall
  have hknown := sound.mem_of_owner?_globals (by simp [Setting.session]) htarget
  rw [Store.owner?_of_hop? sound.outward hchain.hop?_length, htarget]
  intro k hk t ht
  rw [← Bool.not_eq_true]
  intro hthere
  obtain ⟨inner, hinner, hin⟩ := sound.mem_names_of_defines hchain hk ht hthere
  rcases Region.mem_names_iff.1 hin with hdeclared | ⟨rfl, _⟩
  · apply hapart.notMem_outer hinner hdeclared
    rcases hknown with ⟨q, hq, hname⟩ | hname
    · cases List.mem_singleton.1 hq
      exact List.mem_append_left _ hname
    · exact List.mem_append_right _ (List.mem_cons_of_mem _ hname)
  · rcases hknown with ⟨q, hq, hname⟩ | hname
    · cases List.mem_singleton.1 hq
      exact apart_iff.1 htop "this" hname List.mem_cons_self
    · simp [builtinNames] at hname

/-- At a reference that is placed, the distances lead to nothing, or a search finds the same scope. -/
theorem walking_eq_lexical (unshadowed : p.unshadowed = true)
    (sound : (Setting.session [p] False).Sound s)
    (referred : (Setting.session [p] False).Referred s scope name id) {table : Annotations}
    (tabulated : (Setting.session [p] False).Tabulated table) :
    Finder.lexical ⟨1⟩ table s scope name id = none ∨
      Finder.walking s scope name id = Finder.lexical ⟨1⟩ table s scope name id := by
  obtain ⟨q, hq, names, regions, hmeets, hchain, htable, _⟩ := referred.located tabulated
  cases List.mem_singleton.1 hq
  cases hfound : Finder.lexical ⟨1⟩ table s scope name id with
  | none => exact .inl rfl
  | some target =>
      right
      unfold Finder.lexical at hfound
      cases hd : names.distance? name with
      | some d =>
          rw [htable, hd] at hfound
          exact owner?_of_ownerAt? unshadowed sound hmeets hchain hd hfound
      | none =>
          rw [htable, hd] at hfound
          exact owner?_of_owner?_globals unshadowed sound hmeets hchain hfound

/-- On a program without shadowing, an interpreter that searches for all variables gives the same values or the
    same failure, and leaves the same store and the same output behind, unless the distances of a reference
    lead to nothing. -/
theorem walk_eq_run {sink : Sink} (accepted : resolve p = .ok a) (distinct : (Program.ids p).Nodup)
    (unshadowed : p.unshadowed = true) (fuel : Nat)
    (other : ∀ line name id,
      ((new sink).run fuel p a).1 ≠ .error ⟨line, .failed (.undefinedVariable name id)⟩) :
    (new sink).walk fuel p
      = (((new sink).run fuel p a).1, ((new sink).run fuel p a).2.world) := by
  have history : History sink [] (new sink) := .fresh
  have tabulated := history.tabulated accepted (by simpa using distinct) False
  have hvisits : ∀ v, ProgramVisits ((new sink).learn a).finder fuel (new sink).globals p
      (new sink).world v → (True ∧ v.found ((new sink).learn a).finder = none) ∨
        v.found .walking = v.found ((new sink).learn a).finder := by
    intro v visits
    obtain ⟨sound, referred⟩ := history.referred accepted False (fun strict => strict.elim) visits
    rcases walking_eq_lexical unshadowed sound referred tabulated with hnone | hsame
    · exact .inl ⟨trivial, hnone⟩
    · exact .inr hsame
  have hagree := program_agree True _ _ fuel _ p _ hvisits
  rw [run_eq] at other ⊢
  rcases hagree with ⟨_, line, name, id, w, hfailed⟩ | hsame
  · rw [hfailed] at other
    exact absurd rfl (other line name id)
  · rw [walk, hsame]
    cases program ((new sink).learn a).finder fuel (new sink).globals p (new sink).world with
    | ok values w => rfl
    | error e w => rfl

/-- A class whose instances count upward. -/
def counterProgram : Program :=
  [⟨0, .classDecl "Counter" [
    ⟨some "init", [⟨"start", none⟩], none, [.setMember (.this ⟨0⟩) "count" (.var "start" ⟨1⟩)]⟩,
    ⟨some "next", [], none, [
      .setMember (.this ⟨2⟩) "count" (.binary .add (.member (.this ⟨3⟩) "count") (.number 1)),
      .ret (some (.member (.this ⟨4⟩) "count"))]⟩]⟩,
    ⟨8, .declare "counter" (.call (.var "Counter" ⟨5⟩) [.number 4])⟩,
    ⟨9, .expr (.call (.member (.var "counter" ⟨6⟩) "next") [])⟩]

/-- The distances in the counting program: `this` lies one scope out from the bodies of methods. -/
def counterDistances : Annotations :=
  ((((Annotations.empty.record ⟨0⟩ 1).record ⟨1⟩ 0).record ⟨2⟩ 1).record ⟨3⟩ 1).record ⟨4⟩ 1

/-- Counting works without distances as it does with them. -/
theorem walk_eq_run_of_counter : ((new default).run 20 counterProgram counterDistances).1.isOk = true ∧
    (new default).walk 20 counterProgram
      = (((new default).run 20 counterProgram counterDistances).1,
        ((new default).run 20 counterProgram counterDistances).2.world) := by
  have hok : ((new default).run 20 counterProgram counterDistances).1.isOk = true := by
    decide +kernel
  refine ⟨hok, walk_eq_run rfl (by decide) (by decide) 20 ?_⟩
  intro line name id hfailed
  rw [hfailed] at hok
  cases hok

end Interpreter

end Kiln
