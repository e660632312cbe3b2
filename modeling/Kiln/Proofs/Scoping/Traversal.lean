/-
Module: Kiln.Proofs.Scoping.Traversal
Purpose: Static scoping, told by positions. A program is read from its start to its end as a list of events:
  scopes open and close, names are declared, and variables are referred to. A declaration that comes before a
  reference counts for it when its scope is still open there, and its distance is how many scopes have been
  opened since and not closed. The distances that the analysis notes are those of the innermost such
  declarations, and they depend on nothing that comes later.
Main exports: Event, Event.depthAfter?, Event.Declared, Stmt.events, Program.events, Step.Traces,
  Program.traces, resolve_static_scoping
-/
import Kiln.Proofs.Scoping.Walk

namespace Kiln

/-- What is met when a program is read from its start to its end. -/
inductive Event where
  /-- A scope begins. -/
  | opens
  /-- The scope that was opened last and is still open ends. -/
  | closes
  | declares (name : String)
  | refers (name : String) (id : NodeId)
deriving DecidableEq, Repr, Inhabited

namespace Event

/-- How deep inside a scope it is after some events, when it was `d` scopes deep before them; nothing if the
    scope itself has been closed. -/
def depthAfter? : Nat → List Event → Option Nat
  | d, [] => some d
  | d, .opens :: rest => depthAfter? (d + 1) rest
  | 0, .closes :: _ => none
  | d + 1, .closes :: rest => depthAfter? d rest
  | d, .declares _ :: rest => depthAfter? d rest
  | d, .refers _ _ :: rest => depthAfter? d rest

/-- Among the events so far there is a declaration of the name in the `d`-th scope outward, which is still open
    and is not the top level. -/
def Declared (past : List Event) (d : Nat) (name : String) : Prop :=
  ∃ before after k, past = before ++ .declares name :: after ∧
    depthAfter? 0 before = some (k + 1) ∧ depthAfter? 0 after = some d

/-- The id of a reference. -/
def id? : Event → Option NodeId
  | .refers _ id => some id
  | _ => none

/-- The ids of all references. -/
def ids (events : List Event) : List NodeId := events.filterMap id?

theorem ids_append (a b : List Event) : ids (a ++ b) = ids a ++ ids b := List.filterMap_append

end Event

/-! ### Programs as events -/

mutual

/-- The events of an expression. -/
def Expr.events : Expr → List Event
  | .number _ | .text _ | .bool _ => []
  | .var name id => [.refers name id]
  | .this id => [.refers "this" id]
  | .binary _ left right | .logical _ left right => left.events ++ right.events
  | .unary _ operand => operand.events
  | .member object _ => object.events
  | .call callee args => callee.events ++ Expr.eventsOfAll args
  | .lambda f => f.events

/-- The events of several expressions. -/
def Expr.eventsOfAll : List Expr → List Event
  | [] => []
  | e :: rest => e.events ++ Expr.eventsOfAll rest

/-- The events of a statement. A variable is declared before its first value, and the name of a function or
    class before its body. -/
def Stmt.events : Stmt → List Event
  | .expr e => e.events
  | .declare name value => .declares name :: value.events
  | .assign target value => value.events ++ [.refers target.name target.id]
  | .update target _ => [.refers target.name target.id]
  | .setMember object _ value => object.events ++ value.events
  | .block body => .opens :: (Stmt.eventsOfAll body ++ [.closes])
  | .ifElse test thenBranch none => test.events ++ thenBranch.events
  | .ifElse test thenBranch (some elseBranch) =>
    test.events ++ (thenBranch.events ++ elseBranch.events)
  | .whileLoop test body => test.events ++ body.events
  | .function f => .declares f.displayName :: f.events
  | .ret none => []
  | .ret (some value) => value.events
  | .classDecl name methods =>
    .declares name :: .opens :: .declares "this" :: (Function.eventsOfAll methods ++ [.closes])

/-- The events of several statements. -/
def Stmt.eventsOfAll : List Stmt → List Event
  | [] => []
  | s :: rest => s.events ++ Stmt.eventsOfAll rest

/-- The events of a function, whose parameters and body share one scope. -/
def Function.events : Function → List Event
  | ⟨_, params, _, body⟩ =>
    .opens :: (params.map (.declares ·.name) ++ Stmt.eventsOfAll body ++ [.closes])

/-- The events of several functions. -/
def Function.eventsOfAll : List Function → List Event
  | [] => []
  | f :: rest => f.events ++ Function.eventsOfAll rest

end

/-- The events of a program. -/
def Program.events (p : Program) : List Event := Stmt.eventsOfAll p.statements

/-! ### One more event -/

namespace Event

theorem depthAfter?_append (d : Nat) (a b : List Event) :
    depthAfter? d (a ++ b) = (depthAfter? d a).bind (depthAfter? · b) := by
  fun_induction depthAfter? d a with
  | case1 d => rfl
  | case2 d rest ih => exact ih
  | case3 rest => rfl
  | case4 d rest ih => exact ih
  | case5 d name rest ih => exact ih
  | case6 d name id rest ih => exact ih

theorem depthAfter?_append_eq_some {d k : Nat} {a b : List Event} :
    depthAfter? d (a ++ b) = some k ↔ ∃ c, depthAfter? d a = some c ∧ depthAfter? c b = some k := by
  rw [depthAfter?_append, Option.bind_eq_some_iff]

/-- What is declared after one more event: its own declaration, if it is one, and what was declared before,
    at the distance to which the event has moved it. -/
theorem declared_concat {past : List Event} {event : Event} {d : Nat} {name : String} :
    Declared (past ++ [event]) d name ↔
      (event = .declares name ∧ d = 0 ∧ ∃ k, depthAfter? 0 past = some (k + 1)) ∨
        ∃ c, Declared past c name ∧ depthAfter? c [event] = some d := by
  constructor
  · rintro ⟨before, after, k, heq, hbefore, hafter⟩
    rcases List.eq_nil_or_concat after with rfl | ⟨after, last, rfl⟩
    · obtain ⟨rfl, hevent⟩ := List.append_inj' heq rfl
      cases hevent
      cases hafter
      exact .inl ⟨rfl, rfl, k, hbefore⟩
    · rw [List.concat_eq_append, ← List.cons_append, ← List.append_assoc] at heq
      obtain ⟨rfl, hevent⟩ := List.append_inj' heq rfl
      cases hevent
      rw [List.concat_eq_append] at hafter
      obtain ⟨c, hc, hd⟩ := depthAfter?_append_eq_some.1 hafter
      exact .inr ⟨c, ⟨before, after, k, rfl, hbefore, hc⟩, hd⟩
  · rintro (⟨rfl, rfl, k, hk⟩ | ⟨c, ⟨before, after, k, rfl, hbefore, hafter⟩, hd⟩)
    · exact ⟨past, [], k, rfl, hk, rfl⟩
    · refine ⟨before, after ++ [event], k, by simp, hbefore, ?_⟩
      exact depthAfter?_append_eq_some.2 ⟨c, hafter, hd⟩

/-- After the events, these are the tables of names of the scopes that are open. -/
structure Leaves (past : List Event) (tables : List NameTable) : Prop where
  depth : depthAfter? 0 past = some tables.length
  mem_iff : ∀ d name, (∃ table, tables[d]? = some table ∧ name ∈ table) ↔ Declared past d name

theorem leaves_nil : Leaves [] [] := by
  constructor
  · rfl
  · intro d name
    constructor
    · rintro ⟨table, htable, _⟩
      cases htable
    · rintro ⟨before, after, k, heq, _⟩
      cases before <;> cases heq

namespace Leaves

variable {past : List Event} {table : NameTable} {tables : List NameTable}

theorem opens (h : Leaves past tables) : Leaves (past ++ [.opens]) (∅ :: tables) := by
  constructor
  · exact depthAfter?_append_eq_some.2 ⟨_, h.depth, rfl⟩
  · intro d name
    rw [declared_concat]
    cases d with
    | zero => simp [depthAfter?]
    | succ d => simpa [depthAfter?] using h.mem_iff d name

theorem closes (h : Leaves past (table :: tables)) : Leaves (past ++ [.closes]) tables := by
  constructor
  · exact depthAfter?_append_eq_some.2 ⟨_, h.depth, rfl⟩
  · intro d name
    have houter : (∃ t, tables[d]? = some t ∧ name ∈ t) ↔ Declared past (d + 1) name :=
      h.mem_iff (d + 1) name
    rw [declared_concat, houter]
    constructor
    · intro hd
      exact .inr ⟨d + 1, hd, rfl⟩
    · rintro (⟨hevent, _⟩ | ⟨c, hc, hmoved⟩)
      · cases hevent
      · cases c with
        | zero => cases hmoved
        | succ c =>
            cases hmoved
            exact hc

theorem refers (h : Leaves past tables) (name : String) (id : NodeId) :
    Leaves (past ++ [.refers name id]) tables := by
  constructor
  · exact depthAfter?_append_eq_some.2 ⟨_, h.depth, rfl⟩
  · intro d other
    rw [h.mem_iff, declared_concat]
    simp [depthAfter?]

theorem declares_topLevel (h : Leaves past []) (name : String) :
    Leaves (past ++ [.declares name]) [] := by
  constructor
  · exact depthAfter?_append_eq_some.2 ⟨_, h.depth, rfl⟩
  · intro d other
    rw [h.mem_iff, declared_concat]
    simp [depthAfter?, h.depth]

theorem declares (h : Leaves past (table :: tables)) (name : String) (ready : Bool) :
    Leaves (past ++ [.declares name]) (table.insert name ready :: tables) := by
  constructor
  · exact depthAfter?_append_eq_some.2 ⟨_, h.depth, rfl⟩
  · intro d other
    have hold := h.mem_iff d other
    rw [declared_concat]
    cases d with
    | zero =>
        simp only [depthAfter?, h.depth, List.getElem?_cons_zero, Option.some.injEq, exists_eq_left',
          Std.ExtTreeMap.mem_insert, Std.compare_eq_iff_eq] at hold ⊢
        simp [hold, eq_comm]
    | succ d => simpa [depthAfter?] using hold

/-- Marking a name once more changes no scope. -/
theorem insert_of_mem (h : Leaves past (table :: tables)) {name : String} (hname : name ∈ table)
    (ready : Bool) : Leaves past (table.insert name ready :: tables) := by
  constructor
  · exact h.depth
  · intro d other
    rw [← h.mem_iff]
    cases d with
    | zero =>
        simp [Std.ExtTreeMap.mem_insert]
        rintro rfl
        exact hname
    | succ d => exact Iff.rfl

end Leaves

end Event

/-! ### The analysis follows the events -/

/-- Where an element of two joined lists stands. -/
theorem eq_append_cons_of_append {α : Type} {a b before rest : List α} {x : α}
    (h : a ++ b = before ++ x :: rest) :
    (∃ rest', a = before ++ x :: rest') ∨ ∃ before', before = a ++ before' ∧ b = before' ++ x :: rest := by
  rcases List.append_eq_append_iff.1 h with ⟨before', hbefore, hb⟩ | ⟨middle, ha, hx⟩
  · exact .inr ⟨before', hbefore, hb⟩
  · cases middle with
    | nil => exact .inr ⟨[], by simpa using ha.symm, hx.symm⟩
    | cons y middle =>
        cases hx
        exact .inl ⟨middle, ha⟩

namespace Step

open Event

/-- The steps do with the names what the events say: they leave the tables of the scopes that are open then,
    and each reference is located with the tables of the events before it. -/
structure Traces (steps : List Step) (events : List Event) : Prop where
  ids_eq : idsOfAll steps = ids events
  leaves : ∀ {past : List Event} {n m : Names}, Leaves past n.locals → runAll steps n = .ok () m →
    Leaves (past ++ events) m.locals
  meets : ∀ {all : List Step} {last names : Names} {regions : List Region} {past : List Event},
    runAll all .initial = .ok () last → Meets all steps names regions → Leaves past names.locals →
    ∀ {before rest : List Event} {name : String} {id : NodeId},
      events = before ++ .refers name id :: rest →
      ∃ later deeper, Meets all [.locate name id] later deeper ∧ Leaves (past ++ before) later.locals

namespace Traces

variable {x y : List Step} {a b : List Event} {name : String}

/-- Steps without references. -/
theorem of_ids_eq_nil (hsteps : idsOfAll x = []) (hevents : ids a = [])
    (hleaves : ∀ {past : List Event} {n m : Names}, Leaves past n.locals → runAll x n = .ok () m →
      Leaves (past ++ a) m.locals) : Traces x a := by
  refine ⟨by rw [hsteps, hevents], hleaves, ?_⟩
  intro all last names regions past _ _ _ before rest name id heq
  rw [heq, ids_append] at hevents
  cases (List.append_eq_nil_iff.1 hevents).2

theorem nil : Traces [] [] := by
  apply of_ids_eq_nil rfl rfl
  intro past n m hn hm
  rwa [runAll_nil_eq_ok.1 hm, List.append_nil]

theorem append (hx : Traces x a) (hy : Traces y b) : Traces (x ++ y) (a ++ b) := by
  constructor
  · rw [idsOfAll_append, ids_append, hx.ids_eq, hy.ids_eq]
  · intro past n m hn hm
    obtain ⟨k, hk, hm⟩ := runAll_append_eq_ok.1 hm
    rw [← List.append_assoc]
    exact hy.leaves (hx.leaves hn hk) hm
  · intro all last names regions past accepted hmeets hn before rest name id heq
    rcases eq_append_cons_of_append heq with ⟨rest', ha⟩ | ⟨before', rfl, hb⟩
    · exact hx.meets accepted hmeets.first hn ha
    · obtain ⟨k, hk⟩ := hmeets.first.exists_runAll accepted
      rw [← List.append_assoc]
      exact hy.meets accepted (hmeets.next hk) (hx.leaves hn hk) hb

theorem locate (name : String) (id : NodeId) : Traces [.locate name id] [.refers name id] := by
  constructor
  · rfl
  · intro past n m hn hm
    have hm' : m.locals = n.locals := by
      rw [runAll_singleton, run_locate] at hm
      cases hm
      split <;> rfl
    rw [hm']
    exact hn.refers name id
  · intro all last names regions past _ hmeets hn before rest other otherId heq
    cases before with
    | nil =>
        cases heq
        exact ⟨names, regions, hmeets, by rwa [List.append_nil]⟩
    | cons e before => cases before <;> cases heq

theorem refuse (name : String) : Traces [.refuse name] [] := by
  apply of_ids_eq_nil rfl rfl
  intro past n m hn hm
  rw [runAll_singleton] at hm
  rwa [(run_refuse_eq_ok.1 hm).2, List.append_nil]

theorem exit : Traces [.exit] [] := by
  apply of_ids_eq_nil rfl rfl
  intro past n m hn hm
  rw [runAll_singleton] at hm
  rwa [(run_exit_eq_ok.1 hm).2, List.append_nil]

theorem declare (name : String) : Traces [.declare name] [.declares name] := by
  apply of_ids_eq_nil rfl rfl
  intro past n m hn hm
  rw [runAll_singleton] at hm
  rw [(run_declare_eq_ok.1 hm).2]
  unfold Names.mark
  split
  · next hnil =>
    rw [hnil] at hn
    simpa only [hnil] using hn.declares_topLevel name
  · next table outer hcons =>
    rw [hcons] at hn
    exact hn.declares name false

/-- A name that gets ready was declared before in the same scope. -/
theorem define (hname : name ∈ marked x) (h : Traces x a) : Traces (x ++ [.define name]) a := by
  constructor
  · rw [idsOfAll_append, h.ids_eq]
    exact List.append_nil _
  · intro past n m hn hm
    obtain ⟨k, hk, hm⟩ := runAll_append_eq_ok.1 hm
    have hleaves := h.leaves hn hk
    rw [runAll_singleton] at hm
    rw [run_define_eq_ok.1 hm, Names.mark]
    rcases runAll_grows x hk with ⟨_, hnil⟩ | ⟨_, table, outer, _, hlocals, hmem⟩
    · rw [hnil]
      rwa [hnil] at hleaves
    · rw [hlocals]
      rw [hlocals] at hleaves
      exact hleaves.insert_of_mem ((hmem name).2 (.inr hname)) true
  · intro all last names regions past accepted hmeets hn before rest other id heq
    exact h.meets accepted hmeets.first hn heq

theorem introduce (name : String) : Traces [.declare name, .define name] [.declares name] :=
  define (x := [.declare name]) List.mem_cons_self (declare name)

end Traces

end Step

/-- The events at the start of a region. -/
def Region.opening : Region → List Event
  | .methods _ => [.opens, .declares "this"]
  | _ => [.opens]

namespace Step

open Event

/-- The scope of a region begins with the names that are there before all others. -/
theorem leaves_enter {past : List Event} {n : Names} (h : Leaves past n.locals) (region : Region) :
    Leaves (past ++ region.opening) (n.enter region).locals := by
  cases region with
  | block body => exact h.opens
  | function kind f => exact h.opens
  | methods functions =>
      have hthis := h.opens.declares "this" true
      rwa [List.append_assoc] at hthis

theorem Traces.within {body : List Step} {events : List Event} (h : Traces body events)
    (region : Region) :
    Traces [.within region body] (region.opening ++ (events ++ [.closes])) := by
  have hids : ids region.opening = [] := by
    cases region <;> rfl
  constructor
  · rw [idsOfAll_cons, ids_within, h.ids_eq, ids_append, ids_append, hids]
    rfl
  · intro past n m hn hm
    rw [runAll_singleton] at hm
    obtain ⟨k, hk, rfl⟩ := run_within_eq_ok.1 hm
    have hinside := h.leaves (leaves_enter hn region) hk
    obtain ⟨table, htable⟩ := n.locals_enter region
    rcases runAll_grows body hk with ⟨hnil, _⟩ | ⟨_, last, outer, hcons, hlast, _⟩
    · rw [htable] at hnil
      cases hnil
    · rw [htable] at hcons
      cases hcons
      rw [hlast] at hinside
      rw [Names.locals_leave, hlast, ← List.append_assoc, ← List.append_assoc]
      exact hinside.closes
  · intro all last names regions past accepted hmeets hn before rest name id heq
    rcases eq_append_cons_of_append heq with ⟨rest', hopening⟩ | ⟨before', rfl, hinside⟩
    · rw [hopening, ids_append] at hids
      cases (List.append_eq_nil_iff.1 hids).2
    · rcases eq_append_cons_of_append hinside with ⟨rest', hevents⟩ | ⟨closed, _, hclosed⟩
      · rw [← List.append_assoc]
        exact h.meets accepted hmeets.inside (leaves_enter hn region) hevents
      · cases closed with
        | nil => cases hclosed
        | cons e closed => cases closed <;> cases hclosed

theorem Traces.params (ps : List Param) :
    Traces (Param.steps ps) (ps.map (.declares ·.name)) := by
  induction ps with
  | nil => exact Traces.nil
  | cons p rest ih => exact (Traces.introduce p.name).append ih

end Step

open Step

mutual

/-- The analysis of an expression follows its events. -/
theorem Expr.traces : ∀ e : Expr, Traces e.steps e.events
  | .number _ => Traces.nil
  | .text _ => Traces.nil
  | .bool _ => Traces.nil
  | .var name id => (Traces.refuse name).append (Traces.locate name id)
  | .this id => Traces.locate "this" id
  | .binary _ left right => (Expr.traces left).append (Expr.traces right)
  | .logical _ left right => (Expr.traces left).append (Expr.traces right)
  | .unary _ operand => Expr.traces operand
  | .member object _ => Expr.traces object
  | .call callee args => (Expr.traces callee).append (Expr.tracesAll args)
  | .lambda f => Function.traces f

theorem Expr.tracesAll : ∀ es : List Expr, Traces (Expr.stepsOfAll es) (Expr.eventsOfAll es)
  | [] => Traces.nil
  | e :: rest => (Expr.traces e).append (Expr.tracesAll rest)

/-- The analysis of a statement follows its events. -/
theorem Stmt.traces : ∀ s : Stmt, Traces s.steps s.events
  | .expr e => Expr.traces e
  | .declare name value =>
      Traces.define (x := .declare name :: value.steps) List.mem_cons_self
        ((Traces.declare name).append (Expr.traces value))
  | .assign target value => (Expr.traces value).append (Traces.locate target.name target.id)
  | .update target _ => Traces.locate target.name target.id
  | .setMember object _ value => (Expr.traces object).append (Expr.traces value)
  | .block body => (Stmt.tracesAll body).within (.block body)
  | .ifElse test thenBranch none => (Expr.traces test).append (Stmt.traces thenBranch)
  | .ifElse test thenBranch (some elseBranch) =>
      (Expr.traces test).append ((Stmt.traces thenBranch).append (Stmt.traces elseBranch))
  | .whileLoop test body => (Expr.traces test).append (Stmt.traces body)
  | .function f => (Traces.introduce f.displayName).append (Function.traces f)
  | .ret none => Traces.exit
  | .ret (some value) => Traces.exit.append (Expr.traces value)
  | .classDecl name methods =>
      (Traces.introduce name).append ((Function.tracesAll methods).within (.methods methods))

theorem Stmt.tracesAll : ∀ ss : List Stmt, Traces (Stmt.stepsOfAll ss) (Stmt.eventsOfAll ss)
  | [] => Traces.nil
  | s :: rest => (Stmt.traces s).append (Stmt.tracesAll rest)

/-- The analysis of a function follows its events. -/
theorem Function.traces {kind : FunctionKind} : ∀ f : Function, Traces (f.steps kind) f.events
  | ⟨name, params, returnType, body⟩ =>
      ((Traces.params params).append (Stmt.tracesAll body)).within
        (.function kind ⟨name, params, returnType, body⟩)

theorem Function.tracesAll :
    ∀ fs : List Function, Traces (Function.stepsOfAll fs) (Function.eventsOfAll fs)
  | [] => Traces.nil
  | f :: rest => (Function.traces f).append (Function.tracesAll rest)

end

theorem Program.traces (p : Program) : Traces (Program.steps p) p.events := by
  rw [Program.steps_eq]
  exact Stmt.tracesAll p.statements

/-! ### Distances -/

/-- The innermost scope that knows a name, by the tables of the open scopes. -/
theorem Names.distance?_eq_some_iff_of_leaves {n : Names} {past : List Event} {name : String} {d : Nat}
    (h : Event.Leaves past n.locals) :
    n.distance? name = some d ↔
      Event.Declared past d name ∧ ∀ k < d, ¬Event.Declared past k name := by
  simp only [← h.mem_iff]
  rw [Names.distance?, List.findIdx?_eq_some_iff_getElem]
  constructor
  · rintro ⟨hd, hname, hbefore⟩
    refine ⟨⟨n.locals[d], List.getElem?_eq_getElem hd, hname⟩, ?_⟩
    rintro k hk ⟨table, htable, hmem⟩
    obtain ⟨_, rfl⟩ := List.getElem?_eq_some_iff.1 htable
    exact hbefore k hk hmem
  · rintro ⟨⟨table, htable, hname⟩, hbefore⟩
    obtain ⟨hd, rfl⟩ := List.getElem?_eq_some_iff.1 htable
    refine ⟨hd, hname, ?_⟩
    intro k hk hmem
    exact hbefore k hk ⟨_, List.getElem?_eq_getElem (Nat.lt_trans hk hd), hmem⟩

theorem Names.distance?_eq_none_iff_of_leaves {n : Names} {past : List Event} {name : String}
    (h : Event.Leaves past n.locals) :
    n.distance? name = none ↔ ∀ d, ¬Event.Declared past d name := by
  simp only [← h.mem_iff]
  rw [Names.distance?, List.findIdx?_eq_none_iff]
  constructor
  · rintro hnone d ⟨table, htable, hmem⟩
    have hcontains := hnone table (List.mem_of_getElem? htable)
    rw [Std.ExtTreeMap.contains_iff_mem.2 hmem] at hcontains
    cases hcontains
  · intro hnone table htable
    obtain ⟨d, hd⟩ := List.getElem?_of_mem htable
    rw [← Bool.not_eq_true]
    intro hmem
    exact hnone d ⟨table, hd, hmem⟩

/-- The distance of a reference, by the events before it. -/
theorem exists_leaves_of_refers {p : Program} {a : Annotations} (accepted : resolve p = .ok a)
    (distinct : (Event.ids p.events).Nodup) {past rest : List Event} {name : String} {id : NodeId}
    (h : p.events = past ++ .refers name id :: rest) :
    ∃ n : Names, Event.Leaves past n.locals ∧ a.get? id = n.distance? name := by
  obtain ⟨last, hlast, rfl⟩ := (resolve_eq_ok_iff p a).1 accepted
  obtain ⟨n, regions, hmeets, hleaves⟩ := p.traces.meets hlast .start Event.leaves_nil h
  rw [← p.traces.ids_eq] at distinct
  exact ⟨n, hleaves, hmeets.get?_locate hlast distinct⟩

/-- The table of distances is static scoping. A reference has the distance of the innermost scope around it,
    the top level excepted, in which its name is declared before it, and none if there is no such scope; ids
    of no reference are not in the table. So the distance is the same in every other program that
    agrees up to the reference. -/
theorem resolve_static_scoping (p : Program) (a : Annotations) (accepted : resolve p = .ok a)
    (distinct : (Event.ids p.events).Nodup) :
    (∀ past name id rest, p.events = past ++ .refers name id :: rest →
      (∀ d, a.get? id = some d ↔
        Event.Declared past d name ∧ ∀ k < d, ¬Event.Declared past k name) ∧
      (a.get? id = none ↔ ∀ d, ¬Event.Declared past d name) ∧
      ∀ (q : Program) (b : Annotations) (later : List Event), resolve q = .ok b →
        (Event.ids q.events).Nodup → q.events = past ++ .refers name id :: later →
        b.get? id = a.get? id) ∧
    ∀ id, id ∉ Event.ids p.events → a.get? id = none := by
  constructor
  · intro past name id rest hp
    obtain ⟨n, hn, hget⟩ := exists_leaves_of_refers accepted distinct hp
    have hsome : ∀ d, n.distance? name = some d ↔
        Event.Declared past d name ∧ ∀ k < d, ¬Event.Declared past k name :=
      fun d => Names.distance?_eq_some_iff_of_leaves hn
    refine ⟨?_, ?_, ?_⟩
    · intro d
      rw [hget, hsome]
    · rw [hget, Names.distance?_eq_none_iff_of_leaves hn]
    · intro q b later hb hdistinct hq
      obtain ⟨m, hm, hgetq⟩ := exists_leaves_of_refers hb hdistinct hq
      rw [hgetq, hget]
      apply Option.ext
      intro d
      rw [hsome, Names.distance?_eq_some_iff_of_leaves hm]
  · intro id hid
    obtain ⟨last, hlast, rfl⟩ := (resolve_eq_ok_iff p a).1 accepted
    rw [← p.traces.ids_eq] at hid
    rw [runAll_get?_of_notMem _ hlast hid]
    exact Annotations.get?_empty id

/-- A block in a function reads the parameter `x`, then declares a variable of that name, whose first value
    reads the variable itself from inside a function. -/
def lateShadowing : Program :=
  [⟨1, .function ⟨some "f", [⟨"x", none⟩], none,
    [.block [.expr (.var "x" ⟨0⟩),
      .declare "x" (.lambda ⟨none, [], none, [.ret (some (.var "x" ⟨1⟩))]⟩)]]⟩⟩]

/-- Both references lead one scope out: the first to the function, since the block has no `x` yet, and the
    second to the block. -/
theorem lateShadowing_distances :
    ∃ a, resolve lateShadowing = .ok a ∧ (Event.ids lateShadowing.events).Nodup ∧
      a.get? ⟨0⟩ = some 1 ∧
      ¬Event.Declared [.declares "f", .opens, .declares "x", .opens] 0 "x" ∧
      a.get? ⟨1⟩ = some 1 ∧
      Event.Declared [.declares "f", .opens, .declares "x", .opens, .refers "x" ⟨0⟩, .declares "x",
        .opens] 1 "x" := by
  have accepted : resolve lateShadowing =
      .ok ((Annotations.empty.record ⟨0⟩ 1).record ⟨1⟩ 1) := rfl
  have distinct : (Event.ids lateShadowing.events).Nodup := by decide
  obtain ⟨hrefers, _⟩ := resolve_static_scoping lateShadowing _ accepted distinct
  obtain ⟨hparameter, _⟩ := hrefers [.declares "f", .opens, .declares "x", .opens] "x" ⟨0⟩ _ rfl
  obtain ⟨hvariable, _⟩ := hrefers [.declares "f", .opens, .declares "x", .opens, .refers "x" ⟨0⟩,
    .declares "x", .opens] "x" ⟨1⟩ _ rfl
  have hfirst := ((hparameter 1).1 (by simp)).2 0 Nat.zero_lt_one
  have hsecond := ((hvariable 1).1 (by simp)).1
  exact ⟨_, accepted, distinct, by simp, hfirst, by simp, hsecond⟩

end Kiln
