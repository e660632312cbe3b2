/-
Module: Kiln.Proofs.Updates.Running
Purpose: Updates are the assignments that they stand for. A program and the program with assignments in place of
  its updates are accepted or rejected together; the read that each assignment adds has the distance of its
  variable; and on a new interpreter both print the same, fail on the same line for the same cause, or show the
  same values, but that an assignment at the top level shows the new number where an update shows nothing.
Main exports: Stmt.ShownAlike, Program.ShownAlike, UpdatesAlike, exists_resolve_expandUpdates,
  Interpreter.shows_assigned, Interpreter.shows_new_value, Program.expandUpdates_alike
-/
import Mathlib.Data.Set.Function
import Kiln.Proofs.Updates.Expanding

namespace Kiln

/-! ### What runs show -/

/-- How the values of a statement are shown, before and after updates are written as assignments. An update at
    the top level gives nothing, the assignment gives a number. All other values look the same. -/
def Stmt.ShownAlike (s : Stmt) (v v' : Value) : Prop :=
  match s with
  | .update _ _ => v = .void ∧ ∃ n, v' = .number n
  | _ => v'.display = v.display ∧ ∀ palette, v'.echo palette = v.echo palette

/-- How the values of all statements of a program are shown. -/
inductive Program.ShownAlike : Program → List Value → List Value → Prop where
  | nil : Program.ShownAlike [] [] []
  | cons {node : Located Stmt} {p : Program} {v v' : Value} {vs vs' : List Value}
      (head : node.value.ShownAlike v v') (tail : Program.ShownAlike p vs vs') :
      Program.ShownAlike (node :: p) (v :: vs) (v' :: vs')

/-- What a program comes to, before and after updates are written as assignments. Where an update misses its
    variable, it is the added read that misses it afterwards. -/
inductive UpdatesAlike (fresh : NodeId → NodeId) (p : Program) :
    Except (Located Halt) (List Value) → Except (Located Halt) (List Value) → Prop where
  | values {vs vs' : List Value} (h : p.ShownAlike vs vs') : UpdatesAlike fresh p (.ok vs) (.ok vs')
  | failed (e : Located Halt) : UpdatesAlike fresh p (.error e) (.error e)
  | missed (line : Nat) (name : String) (id : NodeId) :
      UpdatesAlike fresh p (.error ⟨line, .failed (.undefinedVariable name id)⟩)
        (.error ⟨line, .failed (.undefinedVariable name (fresh id))⟩)

section Twins

variable {I : NodeId → NodeId → Prop} {fresh : NodeId → NodeId} {p : Program}

theorem Program.shownAlike_of_twin {vs vs' : List Value}
    (h : Program.ValuesTwin I p (p.expandUpdates fresh) vs vs') : p.ShownAlike vs vs' := by
  induction p generalizing vs vs' with
  | nil =>
      cases h
      exact .nil
  | cons node rest ih =>
      obtain ⟨line, s⟩ := node
      simp only [Program.expandUpdates, List.map_cons] at h
      cases h with
      | cons _ statement head tail =>
          apply Program.ShownAlike.cons _ (ih tail)
          cases s with
          | update target op =>
              rw [Stmt.expandUpdates, target.step_eq fresh op] at statement
              cases statement
          | _ => exact ⟨head.display_eq, fun palette => head.echo_eq palette⟩
      | change _ statement n tail =>
          apply Program.ShownAlike.cons _ (ih tail)
          cases s with
          | update target op => exact ⟨rfl, n, rfl⟩
          | _ => cases statement

theorem UpdatesAlike.of_twin (linked : ∀ i j, I i j → Added fresh i j)
    {r r' : Except (Located Halt) (List Value)} (h : VerdictTwin I p (p.expandUpdates fresh) r r') :
    UpdatesAlike fresh p r r' := by
  cases h with
  | values h => exact .values (Program.shownAlike_of_twin h)
  | failed line h =>
      cases h with
      | same cause => exact .failed _
      | missed name h =>
          rcases linked _ _ h with rfl | rfl
          · exact .failed _
          · exact .missed line name _

end Twins

/-! ### The distances of both programs -/

variable {fresh : NodeId → NodeId} {p : Program}

/-- A table can be continued to ids that are not in use, so that a linked id has the same distance. -/
theorem exists_table_of_added {ids : List NodeId} (inj : Set.InjOn fresh {id | id ∈ ids})
    (unused : ∀ id ∈ ids, fresh id ∉ ids) (t : NodeId → Option Nat) :
    ∃ t' : NodeId → Option Nat, (∀ i ∈ ids, ∀ j, Added fresh i j → t' j = t i) ∧
      ∀ j, (∀ i ∈ ids, fresh i ≠ j) → t' j = t j := by
  classical
  obtain ⟨t', hadded, hother⟩ : ∃ t' : NodeId → Option Nat, (∀ i ∈ ids, t' (fresh i) = t i) ∧
      ∀ j, (∀ i ∈ ids, fresh i ≠ j) → t' j = t j := by
    refine ⟨fun j => if ∃ i ∈ ids, fresh i = j then t (Function.invFunOn fresh {id | id ∈ ids} j) else t j,
      ?_, ?_⟩
    · intro i hi
      have hinv : Function.invFunOn fresh {id | id ∈ ids} (fresh i) = i := inj.leftInvOn_invFunOn hi
      exact (if_pos ⟨i, hi, rfl⟩).trans (congrArg t hinv)
    · intro j hj
      apply if_neg
      rintro ⟨i, hi, hfresh⟩
      exact hj i hi hfresh
  refine ⟨t', ?_, hother⟩
  rintro i hi j (rfl | rfl)
  · exact hother j fun other hmem hfresh => unused other hmem (hfresh ▸ hi)
  · exact hadded i hi

/-- A program is rejected if and only if the program with assignments is, for the same reason and on the same
    line. -/
theorem resolve_expandUpdates_eq_error_iff (fresh : NodeId → NodeId) (p : Program)
    (e : Located ResolveError) :
    resolve (p.expandUpdates fresh) = .error e ↔ resolve p = .error e := by
  have rejected : ∀ e, resolve p = .error e → resolve (p.expandUpdates fresh) = .error e := by
    intro e h
    unfold resolve at h ⊢
    cases hrun : Scoping.program p .initial with
    | ok _ k =>
        rw [hrun] at h
        cases h
    | error e k =>
        rw [hrun] at h
        cases h
        obtain ⟨k', hk'⟩ : ∃ k', Scoping.program (p.expandUpdates fresh) .initial = .error e k' :=
          Scoping.program_expandUpdates_of_error p Names.ready_initial (.refl _) hrun
        rw [hk']
  constructor
  · intro h
    cases hp : resolve p with
    | error e' =>
        rw [rejected e' hp] at h
        exact h
    | ok a =>
        -- an accepted program is also accepted with assignments
        obtain ⟨last, hlast, _⟩ := (resolve_eq_ok_iff p a).1 hp
        have retraces : Step.Retraces True (Added fresh) a.get? a.get? Names.Same (Program.steps p)
          (Program.steps (p.expandUpdates fresh)) .initial .initial := Program.retraces_expandUpdates p
        obtain ⟨last', hlast', _⟩ := retraces.ok last hlast
        rw [(resolve_eq_ok_iff _ last'.found).2 ⟨last', hlast', rfl⟩] at h
        cases h
  · exact rejected e

/-- The program with assignments has the same distances, and those of the reads that are added. -/
theorem exists_resolve_expandUpdates (distinct : (Program.ids p).Nodup)
    (inj : Set.InjOn fresh {id | id ∈ Program.ids p})
    (unused : ∀ id ∈ Program.ids p, fresh id ∉ Program.ids p) {a : Annotations}
    (accepted : resolve p = .ok a) :
    ∃ a', resolve (p.expandUpdates fresh) = .ok a' ∧
      (∀ i ∈ Program.ids p, ∀ j ∈ Program.ids (p.expandUpdates fresh), Added fresh i j →
        a'.get? j = a.get? i) ∧
      ∀ j, (∀ i ∈ Program.ids p, fresh i = j → j ∉ Program.ids (p.expandUpdates fresh)) →
        a'.get? j = a.get? j := by
  obtain ⟨t, hlinked, hother⟩ := exists_table_of_added inj unused a.get?
  have retraces : Step.Retraces True (Added fresh) a.get? t Names.Same (Program.steps p)
    (Program.steps (p.expandUpdates fresh)) .initial .initial := Program.retraces_expandUpdates p
  obtain ⟨a', accepted', hdistances⟩ := exists_resolve_of_retraces accepted distinct hlinked retraces
  refine ⟨a', accepted', ?_, ?_⟩
  · intro i hi j hj hij
    rw [hdistances j hj, hlinked i hi j hij]
  · intro j hj
    by_cases hmem : j ∈ Program.ids (p.expandUpdates fresh)
    · rw [hdistances j hmem]
      exact hother j fun i hi hfresh => hj i hi hfresh hmem
    · -- neither program refers to anything under this id
      have hmem' : j ∉ Program.ids p := by
        intro hj
        obtain ⟨last, hlast, _⟩ := (resolve_eq_ok_iff p a).1 accepted
        exact hmem (retraces.ids trivial last hlast j hj)
      rw [get?_eq_none_of_notMem_ids accepted' hmem, get?_eq_none_of_notMem_ids accepted hmem']

/-! ### What an assignment at the top level shows -/

/-- References at the top level have no distance. -/
theorem get?_eq_none_of_topLevel {before after : Program} {line : Nat} {target : Variable} {op : UpdateOp}
    {a : Annotations} (accepted : resolve (before ++ ⟨line, .update target op⟩ :: after) = .ok a)
    (distinct : (Program.ids (before ++ ⟨line, .update target op⟩ :: after)).Nodup) :
    a.get? target.id = none := by
  obtain ⟨last, hlast, rfl⟩ := (resolve_eq_ok_iff _ a).1 accepted
  have measured := Step.measuredAll_of_accepted hlast distinct
  rw [Program.steps_append] at hlast measured
  obtain ⟨middle, hmiddle, _⟩ := Step.runAll_append_eq_ok.1 hlast
  have here : last.found.get? target.id = middle.distance? target.name :=
    ((Step.measuredAll_append.1 measured).2 middle hmiddle).1
  rw [here, Names.distance?, Step.locals_eq_nil hmiddle]
  rfl

namespace Evaluate

variable {find : Finder} {n : Nat} {scope : ScopeId}

/-- An assignment to a variable without a distance gives what is then the value of the variable. -/
theorem get?_of_assign {globals : ScopeId} {a : Annotations} {target : Variable} {e : Expr} {c : Completion}
    {w u : World} (h : a.get? target.id = none)
    (done : stmt (.lexical globals a) n (.assign target e) scope w = .ok c u) :
    u.store.get? globals target.name = some c.value := by
  cases n with
  | zero => cases done
  | succ n =>
      simp only [stmt, Bind.bind, EStateM.bind, Eval.write, Finder.lexical, h] at done
      cases hvalue : expr (.lexical globals a) n e scope w with
      | error e v =>
          rw [hvalue] at done
          cases done
      | ok value v =>
          rw [hvalue] at done
          cases howner : v.store.owner? globals target.name with
          | none =>
              simp only [howner] at done
              cases done
          | some owner =>
              simp only [howner] at done
              cases done
              exact Store.get?_put_of_owner? howner value

/-- A program that ends well gives one value for each statement. -/
theorem length_of_program {p : Program} {w u : World} {vs : List Value}
    (h : program find n scope p w = .ok vs u) : vs.length = p.length := by
  induction p generalizing w vs with
  | nil =>
      cases h
      rfl
  | cons node rest ih =>
      obtain ⟨c, v, others, _, hrest, rfl⟩ := exists_of_program_cons_eq_ok h
      exact congrArg (· + 1) (ih hrest)

end Evaluate

open Evaluate

/-- Where a program with an assignment at the top level ends well, it shows what is the value of the variable when
    it has come that far. -/
theorem Interpreter.shows_assigned {before after : Program} {line : Nat} {target : Variable} {e : Expr}
    {a : Annotations} (unlocated : a.get? target.id = none) {sink : Sink} {vs : List Value}
    {i : Interpreter} (ends : (new sink).Ends (before ++ ⟨line, .assign target e⟩ :: after) a (.ok vs) i) :
    ∃ value xs j, vs[before.length]? = some value ∧
      (new sink).Ends (before ++ [⟨line, .assign target e⟩]) a (.ok xs) j ∧
      j.world.store.get? (new sink).globals target.name = some value := by
  obtain ⟨fuel, hrun, _⟩ := ends
  obtain ⟨u, hprogram⟩ := exists_world_of_run_eq_ok (congrArg Prod.fst hrun)
  obtain ⟨xs, v, ys, hbefore, hrest, rfl⟩ := exists_of_program_append_eq_ok hprogram
  obtain ⟨c, v', others, hassign, _, rfl⟩ := exists_of_program_cons_eq_ok hrest
  have hstart : program ((new sink).learn a).finder fuel (new sink).globals
      (before ++ [⟨line, .assign target e⟩]) (new sink).world = .ok (xs ++ [c.value]) v' := by
    simp only [program_append, hbefore, program_cons, hassign]
    rfl
  refine ⟨c.value, xs ++ [c.value], { (new sink).learn a with world := v' }, ?_, ?_, ?_⟩
  · rw [← length_of_program hbefore, List.getElem?_append_right (Nat.le_refl _), Nat.sub_self]
    rfl
  · exact ⟨fuel, run_of_program_ok hstart, by simp⟩
  · rw [finder_new] at hassign
    exact get?_of_assign unlocated hassign

/-! ### Updates as assignments -/

section Alike

variable (shape : p.every Stmt.branchesAreBlocks = true) {a a' : Annotations}
  (linked : ∀ i ∈ Program.ids p, ∀ j ∈ Program.ids (p.expandUpdates fresh), Added fresh i j →
    a'.get? j = a.get? i)
include shape linked

/-- The program with assignments does the same, where ids belong together if the one is added for the other and
    the distances are the same. -/
theorem Program.twin_expandUpdates_of_linked :
    p.Twin (fun i j => Added fresh i j ∧ a'.get? j = a.get? i) (p.expandUpdates fresh) :=
  (Program.twin_expandUpdates fresh p shape).imp fun i j hi hj hij => ⟨hij, linked i hi j hj hij⟩

namespace Interpreter

/-- Both programs end alike on a new interpreter. -/
theorem ends_expandUpdates (sink : Sink) :
    (∀ r i, (new sink).Ends p a r i → ∃ r' i', (new sink).Ends (p.expandUpdates fresh) a' r' i' ∧
      i'.world.sink = i.world.sink ∧ UpdatesAlike fresh p r r') ∧
    ∀ r' i', (new sink).Ends (p.expandUpdates fresh) a' r' i' → ∃ r i, (new sink).Ends p a r i ∧
      i'.world.sink = i.world.sink ∧ UpdatesAlike fresh p r r' :=
  ends_alike (Program.twin_expandUpdates_of_linked shape linked) (fun _ _ h => h.2)
    (.of_twin fun _ _ h => h.1) sink

end Interpreter

end Alike

/-- An assignment in place of an update at the top level shows a number. -/
theorem Program.ShownAlike.exists_number {before after : Program} {line : Nat} {target : Variable}
    {op : UpdateOp} {vs vs' : List Value}
    (h : Program.ShownAlike (before ++ ⟨line, .update target op⟩ :: after) vs vs') :
    ∃ n, vs'[before.length]? = some (.number n) := by
  induction before generalizing vs vs' with
  | nil =>
      cases h with
      | cons head tail =>
          obtain ⟨_, n, rfl⟩ := head
          exact ⟨n, rfl⟩
  | cons node rest ih =>
      cases h with
      | cons head tail => exact ih tail

/-- The first statements of a program do the same with assignments in place of updates. -/
theorem Program.twin_expandUpdates_append {first second : Program}
    (shape : (first ++ second).every Stmt.branchesAreBlocks = true) {a a' : Annotations}
    (linked : ∀ i ∈ Program.ids (first ++ second), ∀ j ∈ Program.ids ((first ++ second).expandUpdates fresh),
      Added fresh i j → a'.get? j = a.get? i) :
    first.Twin (fun i j => Added fresh i j ∧ a'.get? j = a.get? i) (first.expandUpdates fresh) := by
  rw [Program.every, List.all_append, Bool.and_eq_true] at shape
  apply Program.twin_expandUpdates_of_linked shape.1
  intro i hi j hj
  apply linked i _ j
  · rw [Program.expandUpdates, List.map_append, Program.ids_append]
    exact List.mem_append_left _ hj
  · rw [Program.ids_append]
    exact List.mem_append_left _ hi

/-- An assignment in place of an update at the top level shows what is the value of the variable after the
    update. -/
theorem Interpreter.shows_new_value (shape : p.every Stmt.branchesAreBlocks = true) {a a' : Annotations}
    (linked : ∀ i ∈ Program.ids p, ∀ j ∈ Program.ids (p.expandUpdates fresh), Added fresh i j →
      a'.get? j = a.get? i) {before after : Program} {line : Nat} {target : Variable} {op : UpdateOp}
    (hp : p = before ++ ⟨line, .update target op⟩ :: after) (unlocated : a'.get? target.id = none)
    {sink : Sink} {vs' : List Value} {i' : Interpreter}
    (ends : (new sink).Ends (p.expandUpdates fresh) a' (.ok vs') i') :
    ∃ n vs j, vs'[before.length]? = some (.number n) ∧
      (new sink).Ends (before ++ [⟨line, .update target op⟩]) a (.ok vs) j ∧
      j.world.store.get? (new sink).globals target.name = some (.number n) := by
  obtain ⟨_, _, _, _, alike⟩ := (ends_expandUpdates shape linked sink).2 _ _ ends
  cases alike with | values alike =>
  subst hp
  obtain ⟨n, hn⟩ := alike.exists_number
  rw [Program.expandUpdates, List.map_append, List.map_cons, Stmt.expandUpdates, target.step_eq fresh op] at ends
  obtain ⟨value, xs, k, hvalue, hends, hafter⟩ := shows_assigned unlocated ends
  rw [List.length_map, hn] at hvalue
  cases hvalue
  -- up to the update both programs do the same, so that it leaves the same number behind
  have hfirst : before ++ ⟨line, .update target op⟩ :: after
      = (before ++ [⟨line, .update target op⟩]) ++ after := by
    simp
  rw [hfirst] at shape linked
  have twin := Program.twin_expandUpdates_append shape linked
  rw [Program.expandUpdates, List.map_append, List.map_singleton, Stmt.expandUpdates, target.step_eq fresh op]
    at twin
  obtain ⟨r, j, hends, verdict, world⟩ := (ends_twin twin (fun _ _ h => h.2) sink).2 _ _ hends
  cases verdict with | values _ =>
  refine ⟨n, _, j, hn, hends, ?_⟩
  have hvalues := world.store.get? (new sink).globals target.name
  simp only [hafter] at hvalues
  generalize j.world.store.get? (new sink).globals target.name = held at hvalues
  cases hvalues with | some held =>
  cases held
  rfl

/-- An update is exactly the assignment that it stands for. For a program of the shape that the parser gives,
    whose references all have ids of their own, and for ids of the added reads that are not in use: the program
    with assignments is rejected for the same reason and on the same line; if it is accepted, then an added read
    has the distance of its variable and all other distances are the same; and on a new interpreter one program
    ends if and only if the other does, with the same output and an outcome that is shown alike, where an
    assignment at the top level shows the new value of the variable. -/
theorem Program.expandUpdates_alike (shape : p.every Stmt.branchesAreBlocks = true)
    (distinct : (Program.ids p).Nodup) (inj : Set.InjOn fresh {id | id ∈ Program.ids p})
    (unused : ∀ id ∈ Program.ids p, fresh id ∉ Program.ids p) :
    (∀ e, resolve (p.expandUpdates fresh) = .error e ↔ resolve p = .error e) ∧
    ∀ a, resolve p = .ok a → ∃ a', resolve (p.expandUpdates fresh) = .ok a' ∧
      (∀ id ∈ Program.ids p, fresh id ∈ Program.ids (p.expandUpdates fresh) →
        a'.get? (fresh id) = a.get? id) ∧
      (∀ id, (∀ i ∈ Program.ids p, fresh i = id → id ∉ Program.ids (p.expandUpdates fresh)) →
        a'.get? id = a.get? id) ∧
      ∀ sink,
        (∀ r i, (Interpreter.new sink).Ends p a r i →
          ∃ r' i', (Interpreter.new sink).Ends (p.expandUpdates fresh) a' r' i' ∧
            i'.world.sink = i.world.sink ∧ UpdatesAlike fresh p r r') ∧
        (∀ r' i', (Interpreter.new sink).Ends (p.expandUpdates fresh) a' r' i' →
          ∃ r i, (Interpreter.new sink).Ends p a r i ∧
            i'.world.sink = i.world.sink ∧ UpdatesAlike fresh p r r') ∧
        ∀ before line target op after, p = before ++ ⟨line, .update target op⟩ :: after →
          ∀ vs' i', (Interpreter.new sink).Ends (p.expandUpdates fresh) a' (.ok vs') i' →
            ∃ n vs i, vs'[before.length]? = some (.number n) ∧
              (Interpreter.new sink).Ends (before ++ [⟨line, .update target op⟩]) a (.ok vs) i ∧
              i.world.store.get? (Interpreter.new sink).globals target.name = some (.number n) := by
  refine ⟨resolve_expandUpdates_eq_error_iff fresh p, fun a accepted => ?_⟩
  obtain ⟨a', accepted', hlinked, hother⟩ := exists_resolve_expandUpdates distinct inj unused accepted
  refine ⟨a', accepted', fun id hid hadded => hlinked id hid _ hadded (.inr rfl), hother, fun sink => ?_⟩
  obtain ⟨forward, backward⟩ := Interpreter.ends_expandUpdates shape hlinked sink
  refine ⟨forward, backward, ?_⟩
  intro before line target op after hp vs' i' ends
  have hmem : target.id ∈ Program.ids p := by
    rw [hp, Program.ids_append]
    exact List.mem_append_right _ List.mem_cons_self
  have unlocated : a'.get? target.id = none := by
    rw [hother target.id fun i hi heq => absurd (heq ▸ hmem) (unused i hi)]
    subst hp
    exact get?_eq_none_of_topLevel accepted distinct
  exact Interpreter.shows_new_value shape hlinked hp unlocated ends

/-- A program that updates a global, a local variable, and both from inside a function that captures them. -/
def updatingProgram : Program :=
  [⟨0, .declare "n" (.number 1)⟩, ⟨1, .update ⟨"n", ⟨0⟩⟩ .increment⟩,
    ⟨2, .function ⟨some "count", [], none, [.declare "k" (.number 5),
      .function ⟨some "down", [], none,
        [.update ⟨"k", ⟨1⟩⟩ .decrement, .update ⟨"n", ⟨2⟩⟩ .increment, .ret (some (.var "k" ⟨3⟩))]⟩,
      .update ⟨"k", ⟨4⟩⟩ .increment,
      .expr (.call (.var "print" ⟨5⟩) [.call (.var "down" ⟨6⟩) []])]⟩⟩,
    ⟨9, .expr (.call (.var "count" ⟨7⟩) [])⟩]

/-- The distances of its references to local variables. -/
def updatingDistances : Annotations :=
  (((Annotations.empty.record ⟨1⟩ 1).record ⟨3⟩ 1).record ⟨4⟩ 0).record ⟨6⟩ 0

/-- Ids for the reads that are added. -/
def spareId (id : NodeId) : NodeId := ⟨id.index + 100⟩

/-- With assignments the program finds its variables in the same places and prints the same. -/
theorem Program.expandUpdates_alike_of_capture : ∃ a' vs' i',
    resolve (updatingProgram.expandUpdates spareId) = .ok a' ∧
      a'.get? ⟨101⟩ = some 1 ∧ a'.get? ⟨102⟩ = none ∧
      (Interpreter.new default).Ends (updatingProgram.expandUpdates spareId) a' (.ok vs') i' ∧
      i'.world.sink.written = "5\n".toUTF8 ∧ ∃ n, vs'[1]? = some (.number n) := by
  have hok : ((Interpreter.new default).run 20 updatingProgram updatingDistances).1.isOk = true := by
    decide +kernel
  have hwritten : ((Interpreter.new default).run 20 updatingProgram updatingDistances).2.world.sink.written
      = "5\n".toUTF8 := by
    decide +kernel
  have inj : Set.InjOn spareId {id | id ∈ Program.ids updatingProgram} := by
    intro i _ j _ h
    cases i
    cases j
    simpa [spareId] using h
  obtain ⟨a', accepted, hadded, _, hruns⟩ :=
    (Program.expandUpdates_alike (by decide) (by decide) inj (by decide)).2 updatingDistances rfl
  obtain ⟨forward, _, hnew⟩ := hruns default
  obtain ⟨r', i', ends', hsink, alike⟩ := forward _ _ (Interpreter.ends_of_isOk hok)
  rw [← hsink] at hwritten
  generalize ((Interpreter.new default).run 20 updatingProgram updatingDistances).1 = r at hok alike
  cases alike with
  | failed e => cases hok
  | missed line name id => cases hok
  | @values vs vs' alike =>
      obtain ⟨n, _, _, hn, _⟩ := hnew [_] 1 _ _ _ rfl vs' i' ends'
      exact ⟨a', vs', i', accepted, hadded ⟨1⟩ (by decide) (by decide), hadded ⟨2⟩ (by decide) (by decide),
        ends', hwritten, n, hn⟩

end Kiln
