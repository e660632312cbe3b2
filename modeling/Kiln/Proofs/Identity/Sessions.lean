/-
Module: Kiln.Proofs.Identity.Sessions
Purpose: Identity in sessions. At every moment of a session there are the values in variables and in fields, the
  arguments and operands of what is being evaluated, and the results so far. Any two of them that are equal are
  alike in all that programs can see, and instances that are equal share their class and their fields. A call of
  a class gives an instance that differs from all values there were.
Main exports: Moment, Moment.Has, Moment.Sound, Moment.New, ProgramShows, Interpreter.Course, Interpreter.Passes,
  Interpreter.Course.identity_sound, Session.exists_course
-/
import Kiln.Proofs.Identity.Runs
import Kiln.Proofs.Session.History
import Kiln.Proofs.Session.Lines

namespace Kiln

open Evaluate

open Value (AllRecorded)

/-! ### Equality in programs -/

namespace Value

/-- The operator `==` gives true. -/
def Equal (u v : Value) : Prop := Operators.binary .equal u v = .ok (.bool true)

/-- The operator `!=` gives true. -/
def Differ (u v : Value) : Prop := Operators.binary .notEqual u v = .ok (.bool true)

variable {u v : Value} {l : Ledger}

theorem equal_iff : Equal u v ↔ u.same v = true := by
  simp [Equal, Operators.binary]

theorem differ_iff : Differ u v ↔ u.same v = false := by
  simp [Differ, Operators.binary]

/-- Recorded values are equal if they are one and the same value, and otherwise not. -/
theorem equal_iff_eq (hu : u.Recorded l) (hv : v.Recorded l) : Equal u v ↔ u = v := by
  rw [equal_iff]
  constructor
  · exact eq_of_same hu hv
  · rintro rfl
    exact u.same_self

theorem differ_iff_ne (hu : u.Recorded l) (hv : v.Recorded l) : Differ u v ↔ u ≠ v := by
  rw [differ_iff, ne_eq, ← equal_iff_eq hu hv, equal_iff, Bool.not_eq_true]

end Value

/-! ### Moments -/

/-- A world, and the values that are around besides those in variables and fields. -/
structure Moment where
  world : World
  values : List Value

namespace Moment

/-- The value is found somewhere. -/
def Has (m : Moment) (v : Value) : Prop :=
  v ∈ m.values ∨ (∃ scope name, m.world.store.cell? scope name = some v) ∨
    ∃ (object : ObjectId) (name : String), (m.world.store.fields object)[name]? = some v

/-- Equality is sound at a moment. -/
structure Sound (m : Moment) : Prop where
  instances : ∀ {c c' : Class} {id id' : ObjectId}, m.Has (.object c id) → m.Has (.object c' id') →
    Value.Equal (.object c id) (.object c' id') →
      c = c' ∧ m.world.store.fields id = m.world.store.fields id'
  /-- What is written to a field of an instance is read from every instance that is equal to it. -/
  writes : ∀ {c c' : Class} {id id' : ObjectId}, m.Has (.object c id) → m.Has (.object c' id') →
    Value.Equal (.object c id) (.object c' id') → ∀ (name : String) (v : Value),
      ∃ w, Eval.setField id name v m.world = .ok () w ∧ Eval.property (.object c' id') name w = .ok v w
  equivalence : Equivalence fun u v : { v : Value // m.Has v } => u.1.Equal v.1
  alike : ∀ {u v : Value}, m.Has u → m.Has v → u.Equal v → u.kind.name = v.kind.name ∧ u.display = v.display

/-- The object is new at a moment at which the class is called. -/
structure New (m : Moment) (find : Finder) (c : Class) (args : List Value) (object : ObjectId) : Prop where
  differs : ∀ {u : Value}, m.Has u → Value.Differ (.object c object) u ∧ Value.Differ u (.object c object)
  created : ∃ w, Eval.newObject m.world = .ok object w ∧ w.store.fields object = ∅
  /-- When the method `init` is entered, there is no field yet. -/
  fieldless : ∀ {n : Nat} {t : Task} {w : World},
    Task.Enters find n (.call (.classValue c) args) m.world t w → w.store.fields object = ∅

/-- The store and all values are recorded. -/
structure Recorded (l : Ledger) (m : Moment) : Prop where
  store : m.world.store.Recorded l
  values : AllRecorded l m.values

namespace Recorded

variable {l : Ledger} {m : Moment}

theorem of_has (h : m.Recorded l) {v : Value} (hv : m.Has v) : v.Recorded l := by
  rcases hv with hv | ⟨scope, name, hcell⟩ | ⟨object, name, hfield⟩
  · exact h.values v hv
  · exact h.store.cells hcell
  · exact h.store.fields hfield

theorem equal_iff_eq (h : m.Recorded l) {u v : Value} (hu : m.Has u) (hv : m.Has v) : u.Equal v ↔ u = v :=
  Value.equal_iff_eq (h.of_has hu) (h.of_has hv)

/-- A field that has been written is read before all methods. -/
theorem property_of_setField (h : m.Recorded l) {c : Class} {id : ObjectId} (hid : m.Has (.object c id))
    (name : String) (v : Value) :
    ∃ w, Eval.setField id name v m.world = .ok () w ∧ Eval.property (.object c id) name w = .ok v w := by
  have hlt := h.store.lt_size (h.of_has hid)
  refine ⟨{ m.world with store := m.world.store.setField id name v }, rfl, ?_⟩
  rw [Eval.property, Eval.get_bind]
  simp only [Store.fields_setField _ hlt, and_self, if_true]
  rfl

/-- Among recorded values equality is sound. -/
theorem sound (h : m.Recorded l) : m.Sound where
  instances {c c' id id'} hu hv heq := by
    cases (h.equal_iff_eq hu hv).1 heq
    exact ⟨rfl, rfl⟩
  writes {c c' id id'} hu hv heq := by
    cases (h.equal_iff_eq hu hv).1 heq
    exact h.property_of_setField hu
  equivalence := by
    constructor
    · intro u
      exact (h.equal_iff_eq u.2 u.2).2 rfl
    · intro u v heq
      exact (h.equal_iff_eq v.2 u.2).2 ((h.equal_iff_eq u.2 v.2).1 heq).symm
    · intro u v x heq heq'
      have huv := (h.equal_iff_eq u.2 v.2).1 heq
      have hvx := (h.equal_iff_eq v.2 x.2).1 heq'
      exact (h.equal_iff_eq u.2 x.2).2 (huv.trans hvx)
  alike {u v} hu hv heq := by
    cases (h.equal_iff_eq hu hv).1 heq
    exact ⟨rfl, rfl⟩

end Recorded

end Moment

/-! ### Calls of classes -/

section Calls

variable {find : Finder} {k : Nat} {c : Class} {args : List Value} {l : Ledger} {w w' : World}

/-- A call of a class gives the object that was made for it. -/
theorem exists_object_of_call {v : Value} (done : call find k (.classValue c) args w = .ok v w') :
    ∃ object w₁, Eval.newObject w = .ok object w₁ ∧ v = .object c object := by
  cases k with
  | zero => cases done
  | succ n =>
      obtain ⟨object, w₁, created, done⟩ := Eval.exists_of_bind_eq_ok done
      refine ⟨object, w₁, created, ?_⟩
      cases hm : c.methods["init"]? with
      | none =>
          simp only [hm] at done
          split at done
          · cases done
            rfl
          · cases done
      | some method =>
          simp only [hm] at done
          obtain ⟨bound, w₂, _, done⟩ := Eval.exists_of_bind_eq_ok done
          obtain ⟨_, w₃, _, done⟩ := Eval.exists_of_bind_eq_ok done
          cases done
          rfl

theorem fields_of_newObject {object : ObjectId} (created : Eval.newObject w = .ok object w') :
    w'.store.fields object = ∅ := by
  cases created
  simp [Store.fields]

/-- A method is bound without a change to fields. -/
theorem fields_of_bind {method : Function} {receiver : Value} {bound : Closure}
    (done : Eval.bind c method receiver w = .ok bound w') (object : ObjectId) :
    w'.store.fields object = w.store.fields object := by
  cases done
  rfl

/-- A value that has been recorded is none of the objects that are made later. -/
theorem ne_newObject (h : w.store.Recorded l) {u : Value} (hu : u.Recorded l) {object : ObjectId}
    (created : Eval.newObject w = .ok object w') : u ≠ .object c object := by
  rintro rfl
  have hlt := h.lt_size hu
  cases created
  exact Nat.lt_irrefl _ hlt

/-- The object that a call of a class gives is new. -/
theorem Moment.Recorded.new {m : Moment} (h : m.Recorded l) {object : ObjectId}
    (created : Eval.newObject m.world = .ok object w') : m.New find c args object where
  differs {u} hu := by
    obtain ⟨l', grows, _, hobject⟩ := (Records.newObject h.store c).of_eq_ok created
    have hne := ne_newObject (c := c) h.store (h.of_has hu) created
    have hu' := (h.of_has hu).mono grows
    exact ⟨(Value.differ_iff_ne hobject hu').2 hne.symm, (Value.differ_iff_ne hu' hobject).2 hne⟩
  created := ⟨w', created, fields_of_newObject created⟩
  fieldless entered := by
    cases entered with
    | init known created' done =>
        cases created.symm.trans created'
        rw [fields_of_bind done]
        exact fields_of_newObject created

end Calls

/-! ### Programs -/

namespace Evaluate

/-- A moment in the course of a program that is begun while some values are held: a task begins, or it ends with a
    result, or it fails. -/
inductive ProgramShows (find : Finder) (fuel : Nat) (scope : ScopeId) (p : Program) (w : World)
    (held : List Value) : Moment → Prop where
  | begins {k : Nat} {u : Task} {x : World} {all : List Value}
      (h : ProgramArrives find fuel scope p w held k u x all) :
      ProgramShows find fuel scope p w held ⟨x, u.values ++ all⟩
  | ends {k : Nat} {u : Task} {x x' : World} {all : List Value} {a : u.Result}
      (h : ProgramArrives find fuel scope p w held k u x all) (done : u.run find k x = .ok a x') :
      ProgramShows find fuel scope p w held ⟨x', u.given a ++ (u.values ++ all)⟩
  | fails {k : Nat} {u : Task} {x x' : World} {all : List Value} {e : Halt}
      (h : ProgramArrives find fuel scope p w held k u x all) (failed : u.run find k x = .error e x') :
      ProgramShows find fuel scope p w held ⟨x', u.values ++ all⟩

/-- What is there at a moment of a program is recorded. -/
theorem ProgramShows.recorded {find : Finder} {fuel : Nat} {scope : ScopeId} {p : Program} {w : World}
    {held : List Value} {l : Ledger} {m : Moment} (shows : ProgramShows find fuel scope p w held m)
    (h : w.store.Recorded l) (hheld : AllRecorded l held) : ∃ l', m.Recorded l' := by
  cases shows with
  | begins arrives =>
      obtain ⟨l₁, _, h₁, hvalues, hall⟩ := arrives.records h hheld
      exact ⟨l₁, h₁, hvalues.append hall⟩
  | @ends k u x _ _ _ arrives done =>
      obtain ⟨l₁, _, h₁, hvalues, hall⟩ := arrives.records h hheld
      obtain ⟨l₂, grows, h₂, hgiven⟩ := (Task.run_records find k u x l₁ h₁ hvalues).of_eq_ok done
      exact ⟨l₂, h₂, hgiven.append ((hvalues.append hall).mono grows)⟩
  | @fails k u x _ _ _ arrives failed =>
      obtain ⟨l₁, _, h₁, hvalues, hall⟩ := arrives.records h hheld
      obtain ⟨l₂, grows, h₂⟩ := (Task.run_records find k u x l₁ h₁ hvalues).of_eq_error failed
      exact ⟨l₂, h₂, (hvalues.append hall).mono grows⟩

end Evaluate

/-! ### Sessions -/

namespace Interpreter

/-- The values that a run gives. -/
def results {ε : Type} : Except ε (List Value) → List Value
  | .ok values => values
  | .error _ => []

/-- An interpreter on which programs have been run one after the other, with any distances, and all values that
    these have given. -/
inductive Course (sink : Sink) : Interpreter → List Value → Prop where
  | fresh : Course sink (.new sink) []
  | line {i : Interpreter} {values : List Value} (before : Course sink i values) (fuel : Nat) (p : Program)
      (a : Annotations) : Course sink (i.run fuel p a).2 (results (i.run fuel p a).1 ++ values)

/-- A moment at which no program runs, or one in the course of the next program. -/
inductive Passes (i : Interpreter) (values : List Value) : Moment → Prop where
  | between : Passes i values ⟨i.world, values⟩
  | during {fuel : Nat} {p : Program} {a : Annotations} {m : Moment}
      (h : ProgramShows (i.learn a).finder fuel i.globals p i.world values m) : Passes i values m

variable {sink : Sink} {i : Interpreter} {values : List Value}

theorem recorded_new (sink : Sink) :
    (new sink).world.store.Recorded ⟨[.builtin .print ⟨0⟩], []⟩ := by
  have hprint : (Value.builtin .print ⟨0⟩).Recorded ⟨[.builtin .print ⟨0⟩], []⟩ := rfl
  have hversion : (Value.text Store.version).Recorded ⟨[.builtin .print ⟨0⟩], []⟩ := trivial
  have hidentity := Store.Recorded.empty.newIdentity (.builtin .print ⟨0⟩)
  have hscope := hidentity.newScope .outside none
  have hcells := (hscope.put ⟨0⟩ "print" hprint).put ⟨0⟩ "VERSION" hversion
  exact hcells.newScope .outside (some ⟨0⟩)

/-- Whatever is there between two programs is recorded. -/
theorem Course.recorded (h : Course sink i values) : ∃ l, i.world.store.Recorded l ∧ AllRecorded l values := by
  induction h with
  | fresh => exact ⟨_, recorded_new sink, .nil⟩
  | @line i values _ fuel p a ih =>
      obtain ⟨l, h, hvalues⟩ := ih
      have hrun := program_records (i.learn a).finder fuel i.globals p h
      rw [run_eq]
      cases hp : program (i.learn a).finder fuel i.globals p i.world with
      | ok new w =>
          obtain ⟨l₁, grows, h₁, hnew⟩ := hrun.of_eq_ok hp
          exact ⟨l₁, h₁, hnew.append (hvalues.mono grows)⟩
      | error e w =>
          obtain ⟨l₁, grows, h₁⟩ := hrun.of_eq_error hp
          exact ⟨l₁, h₁, hvalues.mono grows⟩

/-- At every moment equality is sound: equal instances have the same class and share their fields, and equal values
    are alike. Whatever the programs are, each successful call of a class gives a new object. -/
theorem Course.identity_sound (h : Course sink i values) :
    (∀ m, i.Passes values m → m.Sound) ∧
    ∀ {fuel k : Nat} {p : Program} {a : Annotations} {c : Class} {args all : List Value} {v : Value} {x x' : World},
      ProgramArrives (i.learn a).finder fuel i.globals p i.world values k (.call (.classValue c) args) x all →
      call (i.learn a).finder k (.classValue c) args x = .ok v x' →
      ∃ object, v = .object c object ∧
        (Moment.mk x (.classValue c :: args ++ all)).New (i.learn a).finder c args object := by
  obtain ⟨l, hstore, hvalues⟩ := h.recorded
  constructor
  · intro m passes
    cases passes with
    | between => exact Moment.Recorded.sound ⟨hstore, hvalues⟩
    | during shows =>
        obtain ⟨l₁, h₁⟩ := shows.recorded hstore hvalues
        exact h₁.sound
  · intro fuel k p a c args all v x x' arrives done
    obtain ⟨l₁, h₁⟩ := (ProgramShows.begins arrives).recorded hstore hvalues
    obtain ⟨object, w₁, created, rfl⟩ := exists_object_of_call done
    exact ⟨object, rfl, h₁.new created⟩

/-- A method that gives an instance a field. -/
def pointInit : Function := ⟨some "init", [⟨"x", none⟩], none, [.setMember (.this ⟨0⟩) "x" (.var "x" ⟨1⟩)]⟩

/-- A class, an instance of it, and a second name for the instance. -/
def pointProgram : Program :=
  [⟨0, .classDecl "P" [pointInit]⟩, ⟨1, .declare "a" (.call (.var "P" ⟨2⟩) [.number 1])⟩,
    ⟨2, .declare "b" (.var "a" ⟨3⟩)⟩]

/-- The run of this program. -/
def pointRun : Except (Located Halt) (List Value) × Interpreter :=
  (new default).run 9 pointProgram ((Annotations.empty.record ⟨0⟩ 1).record ⟨1⟩ 0)

/-- The class that the program has declared. -/
def pointClass : Class := .ofFunctions ⟨1⟩ "P" [pointInit] ⟨1⟩

/-- What is written through one of the names is read through the other, and a second instance is another one. -/
theorem Course.identity_sound_of_alias :
    Course default pointRun.2 (results pointRun.1 ++ []) ∧
    pointRun.2.world.store.cell? ⟨1⟩ "a" = some (.object pointClass ⟨0⟩) ∧
    pointRun.2.world.store.cell? ⟨1⟩ "b" = some (.object pointClass ⟨0⟩) ∧
    (∃ w, Eval.setField ⟨0⟩ "x" (.number 5) pointRun.2.world = .ok () w ∧
      Eval.property (.object pointClass ⟨0⟩) "x" w = .ok (.number 5) w) ∧
    ∃ w, call (pointRun.2.learn .empty).finder 7 (.classValue pointClass) [.number 2] pointRun.2.world
        = .ok (.object pointClass ⟨1⟩) w ∧
      Value.Differ (.object pointClass ⟨1⟩) (.object pointClass ⟨0⟩) := by
  have course : Course default pointRun.2 (results pointRun.1 ++ []) := .line .fresh 9 pointProgram _
  have hfirst : pointRun.2.world.store.cell? ⟨1⟩ "a" = some (.object pointClass ⟨0⟩) := rfl
  have hsecond : pointRun.2.world.store.cell? ⟨1⟩ "b" = some (.object pointClass ⟨0⟩) := rfl
  obtain ⟨hsound, hnew⟩ := course.identity_sound
  have hsame : Value.Equal (.object pointClass ⟨0⟩) (.object pointClass ⟨0⟩) := rfl
  have hwrites := (hsound _ .between).writes (.inr (.inl ⟨_, _, hfirst⟩)) (.inr (.inl ⟨_, _, hsecond⟩)) hsame
  have arrives : ProgramArrives (pointRun.2.learn .empty).finder 9 pointRun.2.globals
      [⟨0, .expr (.call (.var "P" ⟨4⟩) [.number 2])⟩] pointRun.2.world (results pointRun.1 ++ []) 7
      (.call (.classValue pointClass) [.number 2]) pointRun.2.world (results pointRun.1 ++ []) :=
    .here (.inside (.plain .value) (.inside (.plain (.call rfl rfl)) .here))
  have hcall : ∃ w, call (pointRun.2.learn .empty).finder 7 (.classValue pointClass) [.number 2]
      pointRun.2.world = .ok (.object pointClass ⟨1⟩) w := ⟨_, rfl⟩
  obtain ⟨w, done⟩ := hcall
  obtain ⟨object, hobject, new⟩ := hnew arrives done
  cases hobject
  exact ⟨course, hfirst, hsecond, hwrites "x" (.number 5), w, done, (new.differs (.inr (.inl ⟨_, _, hfirst⟩))).1⟩

end Interpreter

/-! ### Sessions of source lines -/

/-- The interpreter of a session has run a course of programs. -/
theorem Session.exists_course (sink : Sink) (lines : List Line) :
    ∃ values, Interpreter.Course sink ((new sink).after lines).interpreter values := by
  have hafter : ∀ (s : Session) (values : List Value), Interpreter.Course sink s.interpreter values →
      ∃ values', Interpreter.Course sink (s.after lines).interpreter values' := by
    induction lines with
    | nil => exact fun s values h => ⟨values, h⟩
    | cons line rest ih =>
        intro s values h
        rw [after_cons]
        rcases s.accepts_or_rejects line.source with ⟨p, a, accepts⟩ | ⟨problem, rejects⟩
        · rw [submit_of_accepts accepts]
          exact ih _ _ (h.line line.fuel p a)
        · rw [submit_of_rejects rejects]
          exact ih _ _ h
  exact hafter _ _ .fresh

end Kiln
