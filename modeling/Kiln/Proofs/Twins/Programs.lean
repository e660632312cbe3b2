/-
Module: Kiln.Proofs.Twins.Programs
Purpose: Whole programs that do the same, on a new interpreter. If one of them ends, then so does the other: they
  print the same, fail on the same line for the same cause, or give the same values, but for updates at the
  top level.
Main exports: Program.Twin, Program.ValuesTwin, VerdictTwin, Evaluate.program_twin,
  Interpreter.twin_new, Interpreter.ends_twin, Interpreter.ends_alike
-/
import Kiln.Proofs.Session.Pieces
import Kiln.Proofs.Twins.Runs

namespace Kiln

open Evaluate

section Relations

variable (I : NodeId → NodeId → Prop)

/-- Programs with statements on the same lines that do the same. -/
inductive Program.Twin : Program → Program → Prop where
  | nil : Program.Twin [] []
  | cons (line : Nat) {s s' : Stmt} {p p' : Program} (head : s.Twin I s') (tail : Program.Twin p p') :
      Program.Twin (⟨line, s⟩ :: p) (⟨line, s'⟩ :: p')
  | change (line : Nat) {s s' : Stmt} {p p' : Program} (head : Stmt.Change I s s')
      (tail : Program.Twin p p') : Program.Twin (⟨line, s⟩ :: p) (⟨line, s'⟩ :: p')

/-- The values of the statements of two programs that do the same. -/
inductive Program.ValuesTwin : Program → Program → List Value → List Value → Prop where
  | nil : Program.ValuesTwin [] [] [] []
  | cons (line : Nat) {s s' : Stmt} {p p' : Program} {v v' : Value} {vs vs' : List Value}
      (statement : s.Twin I s') (head : v.Twin I v') (tail : Program.ValuesTwin p p' vs vs') :
      Program.ValuesTwin (⟨line, s⟩ :: p) (⟨line, s'⟩ :: p') (v :: vs) (v' :: vs')
  | change (line : Nat) {s s' : Stmt} {p p' : Program} {vs vs' : List Value}
      (statement : Stmt.Change I s s') (n : Int64) (tail : Program.ValuesTwin p p' vs vs') :
      Program.ValuesTwin (⟨line, s⟩ :: p) (⟨line, s'⟩ :: p') (.void :: vs) (.number n :: vs')

/-- What two programs that do the same come to. -/
inductive VerdictTwin (p p' : Program) :
    Except (Located Halt) (List Value) → Except (Located Halt) (List Value) → Prop where
  | values {vs vs' : List Value} (h : Program.ValuesTwin I p p' vs vs') :
      VerdictTwin p p' (.ok vs) (.ok vs')
  | failed (line : Nat) {cause cause' : RuntimeError} (h : cause.Twin I cause') :
      VerdictTwin p p' (.error ⟨line, .failed cause⟩) (.error ⟨line, .failed cause'⟩)

/-- Outcomes of two programs that do the same, of which one may lack fuel. -/
inductive ProgramTwin (lacking : Side) (p p' : Program) :
    EStateM.Result (Located Halt) World (List Value) →
      EStateM.Result (Located Halt) World (List Value) → Prop where
  | values {vs vs' : List Value} {w w' : World} (world : w.Twin I w')
      (h : Program.ValuesTwin I p p' vs vs') : ProgramTwin lacking p p' (.ok vs w) (.ok vs' w')
  | failed (line : Nat) {cause cause' : RuntimeError} {w w' : World} (world : w.Twin I w')
      (h : cause.Twin I cause') :
      ProgramTwin lacking p p' (.error ⟨line, .failed cause⟩ w) (.error ⟨line, .failed cause'⟩ w')
  | firstOut (h : lacking = .first) (line : Nat) (w : World)
      (r' : EStateM.Result (Located Halt) World (List Value)) :
      ProgramTwin lacking p p' (.error ⟨line, .outOfFuel⟩ w) r'
  | secondOut (h : lacking = .second) (r : EStateM.Result (Located Halt) World (List Value))
      (line : Nat) (w' : World) : ProgramTwin lacking p p' r (.error ⟨line, .outOfFuel⟩ w')

end Relations

variable {I : NodeId → NodeId → Prop} {lacking : Side}

/-- Links between ids can be replaced by others that what is known of the ids on both sides justifies. -/
theorem Program.Twin.imp {J : NodeId → NodeId → Prop} {p p' : Program} (h : p.Twin I p')
    (link : ∀ i j, i ∈ p.ids → j ∈ p'.ids → I i j → J i j) : p.Twin J p' := by
  induction h with
  | nil => exact .nil
  | @cons line s s' p p' head tail ih =>
      simp only [Program.ids, Program.steps, Step.idsOfAll_append, List.mem_append] at link ih
      refine .cons line (head.imp (P := (· ∈ Step.idsOfAll s.steps))
        (Q := (· ∈ Step.idsOfAll s'.steps)) ?_ (fun _ hi => hi) (fun _ hj => hj)) (ih ?_)
      · exact fun i j hi hj => link i j (.inl hi) (.inl hj)
      · exact fun i j hi hj => link i j (.inr hi) (.inr hj)
  | @change line s s' p p' head tail ih =>
      simp only [Program.ids, Program.steps, Step.idsOfAll_append, List.mem_append] at link ih
      refine .change line (head.imp (P := (· ∈ Step.idsOfAll s.steps))
        (Q := (· ∈ Step.idsOfAll s'.steps)) ?_ (fun _ hi => hi) (fun _ hj => hj)) (ih ?_)
      · exact fun i j hi hj => link i j (.inl hi) (.inl hj)
      · exact fun i j hi hj => link i j (.inr hi) (.inr hj)

/-- Neither of two programs that come to the same has run out of fuel. -/
theorem VerdictTwin.ended {p p' : Program} {r r' : Except (Located Halt) (List Value)}
    (h : VerdictTwin I p p' r r') :
    (∀ line, r ≠ .error ⟨line, .outOfFuel⟩) ∧ ∀ line, r' ≠ .error ⟨line, .outOfFuel⟩ := by
  cases h <;> simp

/-- Where the run that may lack fuel has enough of it, both come to the same. -/
theorem ProgramTwin.verdict {p p' : Program} {r r' : EStateM.Result (Located Halt) World (List Value)}
    (h : ProgramTwin I lacking p p' r r')
    (hfirst : lacking = .first → ∀ line, Eval.endValue r ≠ .error ⟨line, .outOfFuel⟩)
    (hsecond : lacking = .second → ∀ line, Eval.endValue r' ≠ .error ⟨line, .outOfFuel⟩) :
    VerdictTwin I p p' (Eval.endValue r) (Eval.endValue r') ∧
      (Eval.endWorld r).Twin I (Eval.endWorld r') := by
  cases h with
  | values world h => exact ⟨.values h, world⟩
  | failed line world h => exact ⟨.failed line h, world⟩
  | firstOut h line u r' => exact absurd rfl (hfirst h line)
  | secondOut h r line u' => exact absurd rfl (hsecond h line)

/-- A statement and then the rest of a program, on both sides. -/
theorem Evaluate.program_twin_cons {find find' : Finder} {n m : Nat} {scope : ScopeId} {line : Nat}
    {s s' : Stmt} {p p' : Program} {w w' : World} {R : Completion → Completion → Prop}
    (head : Eval.Twin I lacking R (stmt find n s scope w) (stmt find' m s' scope w'))
    (tail : ∀ {u u' : World}, u.Twin I u' →
      ProgramTwin I lacking p p' (program find n scope p u) (program find' m scope p' u'))
    (value : ∀ {c c' : Completion} {vs vs' : List Value}, R c c' → Program.ValuesTwin I p p' vs vs' →
      Program.ValuesTwin I (⟨line, s⟩ :: p) (⟨line, s'⟩ :: p') (c.value :: vs) (c'.value :: vs')) :
    ProgramTwin I lacking (⟨line, s⟩ :: p) (⟨line, s'⟩ :: p')
      (program find n scope (⟨line, s⟩ :: p) w) (program find' m scope (⟨line, s'⟩ :: p') w') := by
  rw [program_cons, program_cons]
  revert head
  generalize stmt find n s scope w = r
  generalize stmt find' m s' scope w' = r'
  intro head
  cases head with
  | failed world h => exact .failed line world h
  | firstOut h u r' => exact .firstOut h line u _
  | secondOut h r u' => exact .secondOut h _ line u'
  | @value c c' u u' world hc =>
      have hrest := tail world
      simp only
      revert hrest
      generalize program find n scope p u = r
      generalize program find' m scope p' u' = r'
      intro hrest
      cases hrest with
      | values world hvalues => exact .values world (value hc hvalues)
      | failed line world h => exact .failed line world h
      | firstOut h line u r' => exact .firstOut h line u _
      | secondOut h r line u' => exact .secondOut h _ line u'

/-- Programs that do the same run in the same way. -/
theorem Evaluate.program_twin {find find' : Finder} (found : Finder.Twin I find find') (n : Nat)
    (scope : ScopeId) {p p' : Program} (h : p.Twin I p') {w w' : World} (world : w.Twin I w') :
    ProgramTwin I lacking p p' (program find n scope p w)
      (program find' (n + lacking.extra) scope p' w') := by
  have runs := runs_twin found lacking n
  induction h generalizing w w' with
  | nil => exact .values world .nil
  | cons line head _ ih =>
      apply program_twin_cons (runs.stmt head world scope) ih
      intro c c' vs vs' hc hvalues
      exact .cons line head hc.value hvalues
  | change line head _ ih =>
      apply program_twin_cons (runs.change head world scope) ih
      intro c c' vs vs' hc hvalues
      cases hc with
      | mk k => exact .change line head k hvalues

namespace Interpreter

/-- The world of a new interpreter has no functions but built-in ones, so it is a twin of itself. -/
theorem twin_new (sink : Sink) : (new sink).world.Twin I (new sink).world where
  store := {
    size_eq := rfl
    parent?_eq := fun _ => rfl
    cells := by
      intro scope name
      cases hcell : (new sink).world.store.cell? scope name with
      | none => exact .none
      | some v =>
          obtain ⟨_, _, ⟨identity, rfl⟩ | rfl⟩ := cell?_new hcell
          · exact .some (.builtin .print identity)
          · exact .some (.text Store.version)
    objects_size_eq := rfl
    fields := by
      intro object name
      simp [Interpreter.new, Store.newBuiltins, Store.newScope, Store.newIdentity, Store.empty, Store.put,
        Store.fields]
    identities_eq := rfl }
  sink_eq := rfl

variable {p p' : Program} {a a' : Annotations}

/-- The runs of two programs that do the same, on a new interpreter. -/
theorem program_twin_new (h : p.Twin I p') (linked : ∀ i j, I i j → a'.get? j = a.get? i) (sink : Sink)
    (lacking : Side) (n : Nat) :
    ProgramTwin I lacking p p'
      (program ((new sink).learn a).finder n (new sink).globals p (new sink).world)
      (program ((new sink).learn a').finder (n + lacking.extra) (new sink).globals p'
        (new sink).world) := by
  rw [finder_new, finder_new]
  exact program_twin (Finder.twin_lexical _ linked) n _ h (twin_new sink)

/-- Of two programs that do the same, one ends on a new interpreter if the other does: they come to the same and
    leave worlds behind that are twins. -/
theorem ends_twin (h : p.Twin I p') (linked : ∀ i j, I i j → a'.get? j = a.get? i) (sink : Sink) :
    (∀ r i, (new sink).Ends p a r i → ∃ r' i', (new sink).Ends p' a' r' i' ∧
      VerdictTwin I p p' r r' ∧ i.world.Twin I i'.world) ∧
    ∀ r' i', (new sink).Ends p' a' r' i' → ∃ r i, (new sink).Ends p a r i ∧
      VerdictTwin I p p' r r' ∧ i.world.Twin I i'.world := by
  constructor
  · rintro r i ⟨n, hrun, hend⟩
    rw [run_eq_end] at hrun
    cases hrun
    obtain ⟨hverdict, hworld⟩ :=
      (program_twin_new h linked sink .first n).verdict (fun _ => hend) nofun
    exact ⟨_, _, ⟨_, run_eq_end _ _ _ _, hverdict.ended.2⟩, hverdict, hworld⟩
  · rintro r' i' ⟨n, hrun, hend⟩
    rw [run_eq_end] at hrun
    cases hrun
    obtain ⟨hverdict, hworld⟩ :=
      (program_twin_new h linked sink .second n).verdict nofun (fun _ => hend)
    exact ⟨_, _, ⟨_, run_eq_end _ _ _ _, hverdict.ended.1⟩, hverdict, hworld⟩

/-- Both programs end alike, in whatever way programs are alike that come to the same. -/
theorem ends_alike (h : p.Twin I p') (linked : ∀ i j, I i j → a'.get? j = a.get? i)
    {Alike : Except (Located Halt) (List Value) → Except (Located Halt) (List Value) → Prop}
    (alike : ∀ {r r'}, VerdictTwin I p p' r r' → Alike r r') (sink : Sink) :
    (∀ r i, (new sink).Ends p a r i → ∃ r' i', (new sink).Ends p' a' r' i' ∧
      i'.world.sink = i.world.sink ∧ Alike r r') ∧
    ∀ r' i', (new sink).Ends p' a' r' i' → ∃ r i, (new sink).Ends p a r i ∧
      i'.world.sink = i.world.sink ∧ Alike r r' := by
  obtain ⟨forward, backward⟩ := ends_twin h linked sink
  constructor
  · intro r i ends
    obtain ⟨r', i', ends', verdict, world⟩ := forward r i ends
    exact ⟨r', i', ends', world.sink_eq, alike verdict⟩
  · intro r' i' ends'
    obtain ⟨r, i, ends, verdict, world⟩ := backward r' i' ends'
    exact ⟨r, i, ends, world.sink_eq, alike verdict⟩

end Interpreter

end Kiln
