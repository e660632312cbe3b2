/-
Module: Kiln.Proofs.Session.History
Purpose: Interpreters that programs have been run on, one after the other, whether or not they ran to
  their end. The store of such an interpreter is sound for all these programs, and so is every store that
  the next program passes through. Its table of distances has for each reference the distance that the
  analysis of its own program has found, if no two references share an id.
Main exports: Program.ids, Interpreter.History, Setting.session, Interpreter.History.sound,
  Interpreter.History.get?_annotations, Interpreter.History.referred
-/
import Kiln.Interpreter
import Kiln.Proofs.Evaluation.Soundness

namespace Kiln

open Evaluate

/-- The ids of the references of a program. -/
def Program.ids (p : Program) : List NodeId := Step.idsOfAll (Program.steps p)

theorem Program.ids_append (first second : Program) :
    Program.ids (first ++ second) = Program.ids first ++ Program.ids second := by
  rw [Program.ids, Program.steps_append, Step.idsOfAll_append]
  rfl

/-- The world in which a step ends. -/
def Eval.endWorld {ε α : Type} : EStateM.Result ε World α → World
  | .ok _ w => w
  | .error _ w => w

/-- What a step gives, or why it fails. -/
def Eval.endValue {ε α : Type} : EStateM.Result ε World α → Except ε α
  | .ok a _ => .ok a
  | .error e _ => .error e

/-- References of other programs have no distance in the table of a program. -/
theorem get?_eq_none_of_notMem_ids {p : Program} {a : Annotations} (accepted : resolve p = .ok a)
    {id : NodeId} (hid : id ∉ Program.ids p) : a.get? id = none := by
  obtain ⟨last, hlast, rfl⟩ := (resolve_eq_ok_iff p a).1 accepted
  rw [Step.runAll_get?_of_notMem _ hlast hid]
  exact Annotations.get?_empty id

namespace Interpreter

/-- An interpreter on which these programs have been run in order, each with the distances that its analysis
    has found. Some of them may have failed, and each may have had a bound of its own. -/
inductive History (sink : Sink) : List Program → Interpreter → Prop where
  | fresh : History sink [] (.new sink)
  | line {earlier : List Program} {i : Interpreter} {p : Program} {a : Annotations}
      (before : History sink earlier i) (accepted : resolve p = .ok a) (fuel : Nat) :
      History sink (earlier ++ [p]) (i.run fuel p a).2

/-- What a run does to the interpreter: it learns the distances, and has the world in which the program
    ends. -/
theorem run_eq (fuel : Nat) (i : Interpreter) (p : Program) (a : Annotations) :
    i.run fuel p a = match program (i.learn a).finder fuel i.globals p i.world with
      | .ok values w => (.ok values, { i.learn a with world := w })
      | .error e w => (.error e, { i.learn a with world := w }) := rfl

theorem run_eq_end (fuel : Nat) (i : Interpreter) (p : Program) (a : Annotations) :
    i.run fuel p a = (Eval.endValue (program (i.learn a).finder fuel i.globals p i.world),
      { i.learn a with
        world := Eval.endWorld (program (i.learn a).finder fuel i.globals p i.world) }) := by
  rw [run_eq]
  cases program (i.learn a).finder fuel i.globals p i.world <;> rfl

theorem run_of_program_ok {fuel : Nat} {i : Interpreter} {p : Program} {a : Annotations}
    {values : List Value} {w : World}
    (h : program (i.learn a).finder fuel i.globals p i.world = .ok values w) :
    i.run fuel p a = (.ok values, { i.learn a with world := w }) := by
  rw [run_eq, h]

theorem run_of_program_error {fuel : Nat} {i : Interpreter} {p : Program} {a : Annotations}
    {e : Located Halt} {w : World}
    (h : program (i.learn a).finder fuel i.globals p i.world = .error e w) :
    i.run fuel p a = (.error e, { i.learn a with world := w }) := by
  rw [run_eq, h]

theorem honest_finder (i : Interpreter) : i.finder.Honest :=
  Finder.honest_lexical i.globals i.annotations

theorem globals_run (fuel : Nat) (i : Interpreter) (p : Program) (a : Annotations) :
    (i.run fuel p a).2.globals = i.globals := by
  rw [run_eq]
  split <;> rfl

theorem annotations_run (fuel : Nat) (i : Interpreter) (p : Program) (a : Annotations) :
    (i.run fuel p a).2.annotations = i.annotations.extend a := by
  rw [run_eq]
  split <;> rfl

theorem exists_world_of_run_eq_error {fuel : Nat} {i : Interpreter} {p : Program} {a : Annotations}
    {e : Located Halt} (h : (i.run fuel p a).1 = .error e) :
    ∃ w, program (i.learn a).finder fuel i.globals p i.world = .error e w := by
  rw [run_eq] at h
  split at h
  · cases h
  · next e' w hw =>
    cases h
    exact ⟨w, hw⟩

theorem exists_world_of_run_eq_ok {fuel : Nat} {i : Interpreter} {p : Program} {a : Annotations}
    {values : List Value} (h : (i.run fuel p a).1 = .ok values) :
    ∃ w, program (i.learn a).finder fuel i.globals p i.world = .ok values w := by
  rw [run_eq] at h
  split at h
  · next values' w hw =>
    cases h
    exact ⟨w, hw⟩
  · cases h

/-- The scope of the globals is the second one that is made, after that of what is built in. -/
theorem History.globals_eq {sink : Sink} {ps : List Program} {i : Interpreter}
    (h : History sink ps i) : i.globals = ⟨1⟩ := by
  induction h with
  | fresh => rfl
  | line _ _ fuel ih => rw [globals_run, ih]

end Interpreter

/-- The setting in which programs run one after the other on a new interpreter. -/
def Setting.session (programs : List Program) (strict : Prop) : Setting := ⟨programs, ⟨1⟩, ⟨0⟩, strict⟩

/-! ### The store of an interpreter -/

/-- What a new interpreter's store looks like. -/
theorem Interpreter.cell?_new {sink : Sink} {scope : ScopeId} {name : String} {v : Value}
    (h : (Interpreter.new sink).world.store.cell? scope name = some v) :
    scope = ⟨0⟩ ∧ name ∈ builtinNames ∧ ((∃ identity, v = .builtin .print identity) ∨
      v = .text Store.version) := by
  simp only [Interpreter.new, Store.newBuiltins, Store.cell?_newScope] at h
  rw [Store.cell?_put _ (by simp [Store.newScope, Store.newIdentity, Store.empty])] at h
  split at h
  · next hsame =>
    cases h
    exact ⟨hsame.1.symm, by simp [builtinNames, hsame.2.symm], .inr rfl⟩
  · rw [Store.cell?_put _ (by simp [Store.newScope, Store.newIdentity, Store.empty])] at h
    split at h
    · next hsame =>
      cases h
      exact ⟨hsame.1.symm, by simp [builtinNames, hsame.2.symm], .inl ⟨_, rfl⟩⟩
    · rw [Store.cell?_newScope] at h
      simp [Store.cell?, Store.newIdentity, Store.empty] at h

theorem Interpreter.parent?_new {sink : Sink} (scope : ScopeId) :
    (Interpreter.new sink).world.store.parent? scope = if scope = ⟨1⟩ then some ⟨0⟩ else none := by
  obtain ⟨k⟩ := scope
  simp only [Interpreter.new, Store.newBuiltins, Store.parent?_newScope, Store.parent?_put]
  simp [Store.newScope, Store.newIdentity, Store.empty, Store.parent?, Store.put]

theorem Interpreter.origin?_new {sink : Sink} (k : Nat) (hk : k < 2) :
    (Interpreter.new sink).world.store.origin? ⟨k⟩ = some .outside := by
  simp only [Interpreter.new, Store.newBuiltins, Store.origin?_newScope, Store.origin?_put]
  simp [Store.newScope, Store.newIdentity, Store.empty, Store.put]
  omega

/-- A new interpreter finds variables by the distances that it is given. -/
theorem Interpreter.finder_new (sink : Sink) (a : Annotations) :
    ((Interpreter.new sink).learn a).finder = .lexical (Interpreter.new sink).globals a := by
  have hlearn : ((Interpreter.new sink).learn a).annotations = a := by
    apply Annotations.ext_get?
    intro id
    change (Annotations.empty.extend a).get? id = a.get? id
    simp
  rw [Interpreter.finder, hlearn]
  rfl

theorem Setting.sound_new (programs : List Program) (strict : Prop) (sink : Sink) :
    (Setting.session programs strict).Sound (Interpreter.new sink).world.store where
  globals_outside := Interpreter.origin?_new 1 (by omega)
  globals_parent := by rw [Interpreter.parent?_new]; rfl
  builtins_outside := Interpreter.origin?_new 0 (by omega)
  builtins_parent := by rw [Interpreter.parent?_new]; rfl
  outward := by
    intro scope outer houter
    rw [Interpreter.parent?_new] at houter
    split at houter
    · next hscope =>
      cases houter
      rw [hscope]
      exact Nat.zero_lt_one
    · cases houter
  cells := by
    intro scope name v hv
    obtain ⟨_, _, ⟨identity, rfl⟩ | rfl⟩ := Interpreter.cell?_new hv
    · trivial
    · trivial
  fields := by
    intro object name v hv
    simp [Interpreter.new, Store.newBuiltins, Store.newScope, Store.newIdentity, Store.empty, Store.put,
      Store.fields] at hv
  named := by
    intro scope name hd
    obtain ⟨v, hv⟩ := Option.isSome_iff_exists.1 hd
    obtain ⟨hscope, hname, _⟩ := Interpreter.cell?_new hv
    exact .inr (.inl ⟨hscope, hname⟩)

/-- The statements of a careful program are placed at the top level. -/
theorem Setting.placed_session {programs : List Program} {strict : Prop}
    (careful : strict → ∀ q ∈ programs, q.careful = true) {p : Program} {a : Annotations}
    (hp : p ∈ programs) (accepted : resolve p = .ok a) :
    ∀ node ∈ p, ∀ s, (Setting.session programs strict).StmtPlaced s ⟨1⟩ node.value := by
  intro node hnode s
  apply Setting.StmtPlaced.of_mem hp accepted _ hnode
  intro hstrict
  exact Program.every_of_careful accepted (careful hstrict p hp)

theorem Interpreter.sound_run {Γ : Setting} {i : Interpreter} (fuel : Nat) (p : Program) (a : Annotations)
    (hglobals : i.globals = Γ.globals) (sound : Γ.Sound i.world.store)
    (placed : ∀ node ∈ p, ∀ s, Γ.StmtPlaced s Γ.globals node.value) :
    Γ.Sound (i.run fuel p a).2.world.store := by
  have hsafe := program_safe fuel (i.learn a).honest_finder sound placed
  rw [run_eq, hglobals]
  cases hrun : program (i.learn a).finder fuel Γ.globals p i.world with
  | ok values w =>
      rw [hrun] at hsafe
      exact hsafe
  | error e w =>
      rw [hrun] at hsafe
      exact hsafe.1

namespace Interpreter.History

variable {sink : Sink} {ps : List Program} {i : Interpreter} {p : Program} {a : Annotations}

/-- After any number of programs the store is sound, for these programs and any others. -/
theorem sound (h : History sink ps i) {programs : List Program} {strict : Prop}
    (among : ∀ q ∈ ps, q ∈ programs) (careful : strict → ∀ q ∈ programs, q.careful = true) :
    (Setting.session programs strict).Sound i.world.store := by
  induction h with
  | fresh => exact Setting.sound_new programs strict sink
  | @line earlier i p a before accepted fuel ih =>
      have hbefore := ih fun q hq => among q (List.mem_append_left _ hq)
      have hp : p ∈ programs := among p (List.mem_append_right _ List.mem_cons_self)
      exact sound_run fuel p a before.globals_eq hbefore (Setting.placed_session careful hp accepted)

/-- Every reference that the next program visits is placed, in a store that is sound. -/
theorem referred (h : History sink ps i) (accepted : resolve p = .ok a) (strict : Prop)
    (careful : strict → ∀ q ∈ ps ++ [p], q.careful = true) {fuel : Nat} {v : Visit}
    (visits : ProgramVisits (i.learn a).finder fuel i.globals p i.world v) :
    (Setting.session (ps ++ [p]) strict).Sound v.world.store ∧
      (Setting.session (ps ++ [p]) strict).Referred v.world.store v.scope v.name v.id := by
  have hp : p ∈ ps ++ [p] := List.mem_append_right _ List.mem_cons_self
  have hsound := h.sound (fun q hq => List.mem_append_left [p] hq) careful
  have hplaced := Setting.placed_session careful hp accepted
  rw [h.globals_eq] at visits
  exact ProgramVisits.referred (i.learn a).honest_finder visits hsound hplaced

/-- A reference of none of the programs has no distance. -/
theorem get?_annotations_of_notMem (h : History sink ps i) {id : NodeId}
    (hid : ∀ q ∈ ps, id ∉ Program.ids q) : i.annotations.get? id = none := by
  induction h with
  | fresh => exact Annotations.get?_empty id
  | @line earlier i p a before accepted fuel ih =>
      have hbefore := ih fun q hq => hid q (List.mem_append_left _ hq)
      have hp := hid p (List.mem_append_right _ List.mem_cons_self)
      rw [annotations_run, Annotations.get?_extend, get?_eq_none_of_notMem_ids accepted hp, hbefore]
      rfl

/-- A reference has the distance that the analysis of its own program has found. -/
theorem get?_annotations (h : History sink ps i) (distinct : (ps.flatMap Program.ids).Nodup)
    {q : Program} {b : Annotations} (hq : q ∈ ps) (accepted : resolve q = .ok b) {id : NodeId}
    (hid : id ∈ Program.ids q) : i.annotations.get? id = b.get? id := by
  induction h with
  | fresh => cases hq
  | @line earlier i p a before accepted' fuel ih =>
      rw [List.flatMap_append, List.nodup_append] at distinct
      obtain ⟨distinct, _, apart⟩ := distinct
      have hlast : ∀ id ∈ Program.ids p, ∀ q ∈ earlier, id ∉ Program.ids q := by
        intro id hp q hq hid
        have hearlier : id ∈ earlier.flatMap Program.ids := List.mem_flatMap.2 ⟨q, hq, hid⟩
        have hline : id ∈ [p].flatMap Program.ids := List.mem_flatMap.2 ⟨p, List.mem_cons_self, hp⟩
        exact apart id hearlier id hline rfl
      rw [annotations_run, Annotations.get?_extend]
      rcases List.mem_append.1 hq with hq | hq
      · have hother : id ∉ Program.ids p := fun hp => hlast id hp q hq hid
        rw [get?_eq_none_of_notMem_ids accepted' hother]
        exact ih distinct hq
      · cases List.mem_singleton.1 hq
        rw [accepted] at accepted'
        cases accepted'
        rw [before.get?_annotations_of_notMem (hlast id hid), Option.or_none]

end Interpreter.History

end Kiln
