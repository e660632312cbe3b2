/-
Module: Kiln.Proofs.Session.Addressing
Purpose: The distances of references are exact. Wherever a reference with a distance is evaluated, in
  whatever program of a session and through whatever functions of earlier ones, the scopes around it stand for
  the regions in which the analysis met it, one for one. If programs are careful, then the variable is also
  there, so that only references without a distance can miss theirs.
Main exports: Addressed, Setting.Referred.located, Interpreter.History.addressing_exact,
  Interpreter.History.located_names_found
-/
import Kiln.Proofs.Session.History

namespace Kiln

open Evaluate

/-- How a reference with the distance `d` is evaluated in a scope, when the analysis knew `names` inside
    `regions` as it met the reference. -/
structure Addressed (s : Store) (globals scope : ScopeId) (name : String) (d : Nat) (names : Names)
    (regions : List Region) : Prop where
  /-- The distance is the one that the analysis found. -/
  found : names.distance? name = some d
  /-- The globals are exactly as many scopes away as the analysis had open scopes inside the top level. -/
  globals_iff : ∀ k, s.hop? scope k = some globals ↔ k = names.locals.length
  /-- The distance leads to a scope before the globals. -/
  lt_length : d < names.locals.length
  /-- The scope at that distance was opened for the very region whose table held the name, so it is neither
      that of the globals nor the one around them. -/
  lands : ∃ target origin region table, s.hop? scope d = some target ∧
    s.origin? target = some origin ∧ regions[d]? = some region ∧ region.Opens origin ∧
    names.locals[d]? = some table ∧ name ∈ table ∧
    target ≠ globals ∧ s.parent? globals ≠ some target

namespace Setting

variable {Γ : Setting} {s : Store} {scope : ScopeId} {name : String} {id : NodeId}

/-- The table has for each reference the distance that the analysis of its own program has found. -/
def Tabulated (Γ : Setting) (table : Annotations) : Prop :=
  ∀ p ∈ Γ.programs, (Program.ids p).Nodup ∧ ∀ a, resolve p = .ok a →
    ∀ id ∈ Program.ids p, table.get? id = a.get? id

/-- The distance of a reference that is placed is the one that the analysis had found when it met the
    reference. In a strict setting the variable is there. -/
theorem Referred.located {table : Annotations} (tabulated : Γ.Tabulated table)
    (referred : Γ.Referred s scope name id) :
    ∃ p ∈ Γ.programs, ∃ names regions,
      Step.Meets (Program.steps p) [.locate name id] names regions ∧
      s.Chain Γ.globals scope regions ∧ table.get? id = names.distance? name ∧
      (Γ.strict → ∀ d, names.distance? name = some d →
        ∃ target, s.hop? scope d = some target ∧ s.defines target name = true) := by
  obtain ⟨a, names, regions, ⟨p, hp, accepted, hmeets⟩, hchain, hstrict⟩ := referred
  obtain ⟨distinct, hsame⟩ := tabulated p hp
  obtain ⟨last, hlast, hfound⟩ := (resolve_eq_ok_iff p a).1 accepted
  have hdistance : a.get? id = names.distance? name := by
    rw [← hfound]
    exact hmeets.get?_locate hlast distinct
  have hid : id ∈ Program.ids p := hmeets.mem_idsOfAll
  refine ⟨p, hp, names, regions, hmeets, hchain, ?_, ?_⟩
  · rw [hsame a accepted id hid, hdistance]
  · intro strict d hd
    obtain ⟨known, hknown, hname⟩ := Names.exists_table_of_distance? hd
    have hreference : (⟨name, id, 0⟩ : Reference) ∈ Step.referencesOfAll [.locate name id] := by
      simp [Step.referencesOfAll, Step.references]
    apply (hstrict strict).2 _ hreference d known _ hknown hname
    rw [hdistance, hd, Nat.zero_add]

/-- A reference with a distance is addressed exactly. -/
theorem Sound.addressed (sound : Γ.Sound s) {names : Names} {regions : List Region} {all : List Step}
    (hmeets : Step.Meets all [.locate name id] names regions)
    (hchain : s.Chain Γ.globals scope regions) {d : Nat} (hd : names.distance? name = some d) :
    Addressed s Γ.globals scope name d names regions := by
  have hlength := hmeets.length_regions
  obtain ⟨table, htable, hname⟩ := Names.exists_table_of_distance? hd
  have hlt : d < names.locals.length := (List.getElem?_eq_some_iff.1 htable).1
  have hglobals := hchain.hop?_length
  rw [hlength] at hglobals
  obtain ⟨target, origin, region, hhop, horigin, hregion, hopens⟩ :=
    hchain.exists_hop? (hlength ▸ hlt)
  refine ⟨hd, fun k => ⟨fun hk => ?_, fun hk => ?_⟩, hlt, target, origin, region, table, hhop,
    horigin, hregion, hopens, htable, hname, ?_, ?_⟩
  · exact sound.outward.distance_unique hk hglobals
  · rw [hk]
    exact hglobals
  · rintro rfl
    rw [sound.globals_outside] at horigin
    cases horigin
    exact hopens.ne_outside rfl
  · intro hparent
    rw [sound.globals_parent] at hparent
    cases hparent
    rw [sound.builtins_outside] at horigin
    cases horigin
    exact hopens.ne_outside rfl

end Setting

namespace Interpreter.History

variable {sink : Sink} {ps : List Program} {i : Interpreter} {p : Program} {a : Annotations}

/-- In a session in which no two references share an id, the table of the interpreter has the distances of all
    references. -/
theorem tabulated (h : History sink ps i) (accepted : resolve p = .ok a)
    (distinct : ((ps ++ [p]).flatMap Program.ids).Nodup) (strict : Prop) :
    (Setting.session (ps ++ [p]) strict).Tabulated (i.learn a).annotations := by
  intro q hq
  constructor
  · rw [List.flatMap_def] at distinct
    exact (List.sublist_flatten_of_mem (List.mem_map_of_mem hq)).nodup distinct
  · intro b hb id hid
    have hlater := (h.line accepted 0).get?_annotations distinct hq hb hid
    rwa [annotations_run] at hlater

/-- Every visit of a reference with a distance is addressed exactly: the analysis met the reference in one
    of the programs of the session, and the scopes around the visit are those of the regions in which it
    did. -/
theorem addressing_exact (h : History sink ps i) (accepted : resolve p = .ok a)
    (distinct : ((ps ++ [p]).flatMap Program.ids).Nodup) {fuel : Nat} {v : Visit} {d : Nat}
    (visits : ProgramVisits (i.learn a).finder fuel i.globals p i.world v)
    (hd : (i.learn a).annotations.get? v.id = some d) :
    ∃ q ∈ ps ++ [p], ∃ names regions,
      Step.Meets (Program.steps q) [.locate v.name v.id] names regions ∧
      Addressed v.world.store i.globals v.scope v.name d names regions := by
  obtain ⟨sound, referred⟩ := h.referred accepted False (fun strict => strict.elim) visits
  obtain ⟨q, hq, names, regions, hmeets, hchain, htable, _⟩ :=
    referred.located (h.tabulated accepted distinct False)
  rw [htable] at hd
  have haddressed := sound.addressed hmeets hchain hd
  rw [h.globals_eq]
  exact ⟨q, hq, names, regions, hmeets, haddressed⟩

/-- A line that declares a function. -/
def identityLine : Program :=
  [⟨0, .function ⟨some "same", [⟨"x", none⟩], none, [.ret (some (.var "x" ⟨0⟩))]⟩⟩]

/-- A later line that calls the function. -/
def callLine : Program := [⟨0, .expr (.call (.var "same" ⟨1⟩) [.number 7])⟩]

/-- The interpreter between the two lines. -/
def afterIdentity : Interpreter :=
  ((Interpreter.new default).run 10 identityLine (Annotations.empty.record ⟨0⟩ 0)).2

/-- The parameter of a function that an earlier line has declared is read in the scope of its call. -/
theorem addressing_exact_of_parameter : ∃ w : World, ∃ q ∈ [identityLine] ++ [callLine], ∃ names regions,
    Step.Meets (Program.steps q) [.locate "x" ⟨0⟩] names regions ∧
      Addressed w.store ⟨1⟩ ⟨2⟩ "x" 0 names regions := by
  have history : History default [identityLine] afterIdentity := .line .fresh rfl 10
  have accepted : resolve callLine = .ok .empty := rfl
  have hvisits : ∃ w, ProgramVisits (afterIdentity.learn .empty).finder 10 afterIdentity.globals
      callLine afterIdentity.world ⟨w, ⟨2⟩, "x", ⟨0⟩⟩ := by
    apply Exists.intro
    refine .here (.inside .value (.inside (.call rfl rfl) ?_))
    refine .inside .closure (.inside (.body rfl rfl rfl) ?_)
    exact .inside .head (.inside .returned (.here .var))
  obtain ⟨w, visits⟩ := hvisits
  exact ⟨w, history.addressing_exact accepted (by decide) visits rfl⟩

/-- If the programs are careful, then a reference with a distance that is placed finds its variable. -/
theorem found_of_referred (h : History sink ps i) (accepted : resolve p = .ok a)
    (distinct : ((ps ++ [p]).flatMap Program.ids).Nodup) {s : Store} {scope : ScopeId} {name : String}
    {id : NodeId} (referred : (Setting.session (ps ++ [p]) True).Referred s scope name id) {d : Nat}
    (hd : (i.learn a).annotations.get? id = some d) :
    ∃ target, (i.learn a).finder s scope name id = some target ∧ s.defines target name = true := by
  obtain ⟨q, _, names, regions, _, _, htable, hsupplied⟩ :=
    referred.located (h.tabulated accepted distinct True)
  rw [htable] at hd
  obtain ⟨target, hhop, hdefines⟩ := hsupplied trivial d hd
  refine ⟨target, ?_, hdefines⟩
  rw [hd] at htable
  simp only [finder, Finder.lexical, htable]
  exact Store.ownerAt?_eq_some_iff.2 ⟨hhop, hdefines⟩

/-- In a session of careful programs, references with a distance find their variables, and a run that misses
    a variable misses that of a reference without a distance. -/
theorem located_names_found (h : History sink ps i) (accepted : resolve p = .ok a)
    (distinct : ((ps ++ [p]).flatMap Program.ids).Nodup)
    (careful : ∀ q ∈ ps ++ [p], q.careful = true) (fuel : Nat) :
    (∀ v d, ProgramVisits (i.learn a).finder fuel i.globals p i.world v →
      (i.learn a).annotations.get? v.id = some d → ∃ target,
        v.found (i.learn a).finder = some target ∧ v.world.store.defines target v.name = true) ∧
    ∀ line name id, (i.run fuel p a).1 = .error ⟨line, .failed (.undefinedVariable name id)⟩ →
      (i.learn a).annotations.get? id = none := by
  constructor
  · intro v d visits hd
    obtain ⟨_, referred⟩ := h.referred accepted True (fun _ => careful) visits
    exact h.found_of_referred accepted distinct referred hd
  · intro line name id hrun
    have hp : p ∈ ps ++ [p] := List.mem_append_right _ List.mem_cons_self
    have hsound := h.sound (fun q hq => List.mem_append_left [p] hq) (fun _ : True => careful)
    have hsafe := program_safe fuel (i.learn a).honest_finder hsound
      (Setting.placed_session (fun _ : True => careful) hp accepted)
    obtain ⟨w, hfailed⟩ := exists_world_of_run_eq_error hrun
    rw [h.globals_eq] at hfailed
    rw [Setting.session, hfailed] at hsafe
    obtain ⟨s, scope, _, referred, hmissed⟩ := hsafe.2 name id rfl
    cases hd : (i.learn a).annotations.get? id with
    | none => rfl
    | some d =>
        obtain ⟨target, htarget, _⟩ := h.found_of_referred accepted distinct referred hd
        rw [hmissed] at htarget
        cases htarget

/-- A line whose local function refers to itself, and never returns. -/
def recursiveLine : Program :=
  [⟨0, .block [
    .declare "loop" (.lambda ⟨none, [⟨"n", none⟩], none,
      [.ret (some (.call (.var "loop" ⟨0⟩) [.var "n" ⟨1⟩]))]⟩),
    .expr (.call (.var "loop" ⟨2⟩) [.number 1])]⟩]

/-- A line that refers to a variable that does not exist. -/
def missingLine : Program := [⟨4, .expr (.var "missing" ⟨3⟩)⟩]

/-- After a line that was given up, a variable is missing. The reference has no distance. -/
theorem located_names_found_of_missing : ∃ a, resolve recursiveLine = .ok a ∧
    let i := ((Interpreter.new default).run 8 recursiveLine a).2
    (i.run 8 missingLine .empty).1 = .error ⟨4, .failed (.undefinedVariable "missing" ⟨3⟩)⟩ ∧
      (i.learn .empty).annotations.get? ⟨3⟩ = none := by
  refine ⟨_, rfl, ?_⟩
  intro i
  have history : History default [recursiveLine] i := .line .fresh rfl 8
  have accepted : resolve missingLine = .ok .empty := rfl
  have hfailed : (i.run 8 missingLine .empty).1
      = .error ⟨4, .failed (.undefinedVariable "missing" ⟨3⟩)⟩ := rfl
  have hfound := history.located_names_found accepted (by decide) (by decide) 8
  exact ⟨hfailed, hfound.2 4 "missing" ⟨3⟩ hfailed⟩

end Interpreter.History

end Kiln
