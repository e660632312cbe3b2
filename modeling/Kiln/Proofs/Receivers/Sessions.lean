/-
Module: Kiln.Proofs.Receivers.Sessions
Purpose: In every session `this` is the receiver. The analysis finds `this` at the distance of the innermost
  class around it, and a call of a method lies directly inside the scope that was opened when the method was
  bound. So an occurrence of `this` in a method gives the instance of this binding, however deep it stands and
  however late it is evaluated. Outside all classes nothing is called `this`.
Main exports: Store.InnermostCall, Session.Reaches, Session.Binds, Session.binds_apart, Session.Turn.begins,
  Session.Reaches.occurs, Session.this_is_the_receiver
-/
import Kiln.Proofs.Grammar.Source
import Kiln.Proofs.Receivers.Freshness
import Kiln.Proofs.Session.Turns
import Kiln.Proofs.Session.Walking
import Mathlib.Data.List.Flatten
import Mathlib.Data.List.Lattice
import Mathlib.Data.List.Nodup
import Mathlib.Data.List.Pairwise

namespace Kiln

open Evaluate

/-! ### Distances of `this` -/

namespace Step.Meets

variable {all steps : List Step} {names : Names} {regions : List Region}

/-- In a method `this` lies one scope further out than the variables of the method. -/
theorem distance?_this_of_method (fitting : FittingAll all) (h : Meets all steps names regions) {k : Nat}
    {methods : List Function} (hmethods : regions[k + 1]? = some (.methods methods))
    (spared : ∀ j ≤ k, ∀ region : Region, regions[j]? = some region → "this" ∉ region.names) :
    names.distance? "this" = some (k + 1) := by
  obtain ⟨_, _, hdescribes⟩ := h.describes fitting
  have hlt : k + 1 < names.locals.length := by
    rw [← h.length_regions]
    exact (List.getElem?_eq_some_iff.1 hmethods).1
  apply List.findIdx?_eq_some_iff_getElem.2
  refine ⟨hlt, ?_, fun j hj => ?_⟩
  · obtain ⟨region, hregion, _, hthis⟩ := hdescribes (k + 1) _ (List.getElem?_eq_getElem hlt)
    cases hmethods.symm.trans hregion
    exact hthis methods rfl
  · obtain ⟨region, hregion, hnames, _⟩ :=
      hdescribes j _ (List.getElem?_eq_getElem (Nat.lt_trans hj hlt))
    intro hthis
    exact spared j (Nat.le_of_lt_succ hj) region hregion (hnames "this" hthis)

/-- Outside all classes `this` has no distance. -/
theorem distance?_this_of_outside (fitting : FittingAll all) (h : Meets all steps names regions)
    (owned : Region.Owned regions none) : names.distance? "this" = none := by
  obtain ⟨_, _, hdescribes⟩ := h.describes fitting
  cases hd : names.distance? "this" with
  | none => rfl
  | some d =>
      obtain ⟨table, htable, hthis⟩ := Names.exists_table_of_distance? hd
      obtain ⟨region, hregion, hnames, _⟩ := hdescribes d table htable
      have hspared := owned.notMem_names region (List.mem_of_getElem? hregion)
      exact absurd (hnames "this" hthis) hspared

end Step.Meets

/-! ### Calls of bound methods -/

/-- The innermost call of a method around this scope is one of the bound method: the way outward from the scope
    leads to the scope of a call of the method, and from there to the scope that was opened for the binding,
    which is the first of its kind on the way. -/
def Store.InnermostCall (s : Store) (scope : ScopeId) (b : Binding) : Prop :=
  ∃ k activation, s.hop? scope k = some activation ∧ s.origin? activation = some (.call b.method) ∧
    s.parent? activation = some b.scope ∧ s.origin? b.scope = some (.binding b.method) ∧
    ∀ j ≤ k, ∀ target m, s.hop? scope j = some target → s.origin? target ≠ some (.binding m)

/-- There is one innermost call at most. -/
theorem Store.InnermostCall.scope_eq {s : Store} {scope : ScopeId} {b b' : Binding}
    (h : s.InnermostCall scope b) (h' : s.InnermostCall scope b') : b.scope = b'.scope := by
  obtain ⟨k, activation, hhop, _, haround, hbinding, hnearest⟩ := h
  obtain ⟨k', activation', hhop', _, haround', hbinding', hnearest'⟩ := h'
  have hnext := Store.hop?_succ hhop haround
  have hnext' := Store.hop?_succ hhop' haround'
  rcases Nat.lt_trichotomy k k' with hlt | rfl | hlt
  · exact absurd hbinding (hnearest' (k + 1) hlt b.scope b.method hnext)
  · exact Option.some.inj (hnext.symm.trans hnext')
  · exact absurd hbinding' (hnearest (k' + 1) hlt b'.scope b'.method hnext')

section Stores

variable {bound : Binding → Prop} {s : Store} {globals scope : ScopeId} {regions : List Region}

/-- A scope that stands for a region without a variable `this` was not opened for a binding. -/
theorem Store.Chain.origin?_ne_binding (hchain : s.Chain globals scope regions) {j : Nat} {target : ScopeId}
    {region : Region} (hregion : regions[j]? = some region) (spared : "this" ∉ region.names)
    (htarget : s.hop? scope j = some target) (m : Function) : s.origin? target ≠ some (.binding m) := by
  obtain ⟨target', origin, region', hhop, horigin, hregion', hopens⟩ :=
    hchain.exists_hop? (List.getElem?_eq_some_iff.1 hregion).1
  cases htarget.symm.trans hhop
  cases hregion.symm.trans hregion'
  intro hbinding
  cases horigin.symm.trans hbinding
  cases hopens
  exact spared List.mem_cons_self

/-- In a faithful store, where a place is owned by a method, the innermost call around it is one of this method,
    and the scope of its binding has the receiver. -/
theorem Store.Faithful.exists_binding (faithful : s.Faithful bound) (hchain : s.Chain globals scope regions)
    {m : Function} {k : Nat} {methods : List Function} (hfunction : regions[k]? = some (.function .method m))
    (hmethods : regions[k + 1]? = some (.methods methods))
    (spared : ∀ j ≤ k, ∀ region : Region, regions[j]? = some region → "this" ∉ region.names) :
    ∃ b, bound b ∧ b.method = m ∧ s.InnermostCall scope b ∧ s.hop? scope (k + 1) = some b.scope ∧
      s.cell? b.scope "this" = some b.receiver := by
  have hlt := (List.getElem?_eq_some_iff.1 hmethods).1
  obtain ⟨activation, origin, region, hactivation, horigin, hregion, hopens⟩ :=
    hchain.exists_hop? (Nat.lt_of_succ_lt hlt)
  cases hfunction.symm.trans hregion
  cases hopens
  obtain ⟨outer, origin', region', houter, horigin', hregion', hopens'⟩ := hchain.exists_hop? hlt
  cases hmethods.symm.trans hregion'
  cases hopens' with
  | @binding _ m' _ =>
      obtain ⟨around, haround, inner, hinner, hsame⟩ := faithful.calls horigin
      cases houter.symm.trans (Store.hop?_succ hactivation haround)
      -- a call inside the scope of a binding is a call of the bound method
      cases horigin'.symm.trans hinner
      cases hsame m' rfl
      obtain ⟨b, hb, rfl, rfl, hcell⟩ := faithful.bindings horigin'
      refine ⟨b, hb, rfl, ⟨k, activation, hactivation, horigin, haround, horigin', ?_⟩, houter, hcell⟩
      intro j hj target other htarget
      have hj' : j < regions.length := Nat.lt_of_le_of_lt hj (Nat.lt_of_succ_lt hlt)
      have hregionj := List.getElem?_eq_getElem hj'
      exact hchain.origin?_ne_binding hregionj (spared j hj _ hregionj) htarget other

end Stores

/-! ### Evaluations of `this` -/

section Evaluations

variable {Γ : Setting} {bound : Binding → Prop} {w : World} {globals scope : ScopeId} {id : NodeId}
  {table : Annotations} {p : Program} {names : Names} {regions : List Region}

/-- In a method `this` is the receiver of the innermost call. -/
theorem Store.Faithful.this_of_method (faithful : w.store.Faithful bound)
    (hmeets : Step.Meets (Program.steps p) [.locate "this" id] names regions)
    (hchain : w.store.Chain globals scope regions) (htable : table.get? id = names.distance? "this")
    {m : Function} (owned : Region.Owned regions (some m)) (n : Nat) :
    ∃ b, bound b ∧ b.method = m ∧ w.store.InnermostCall scope b ∧
      expr (.lexical globals table) (n + 1) (.this id) scope w = .ok b.receiver w := by
  obtain ⟨k, methods, hfunction, hmethods, spared⟩ := owned.exists_method
  obtain ⟨b, hb, hmethod, hcall, hhop, hcell⟩ :=
    faithful.exists_binding hchain hfunction hmethods spared
  have hdefines : w.store.defines b.scope "this" = true := by
    rw [Store.defines, hcell]
    rfl
  have hfound : Finder.lexical globals table w.store scope "this" id = some b.scope := by
    rw [hmeets.distance?_this_of_method (Program.fittingAll_steps p) hmethods spared] at htable
    simp only [Finder.lexical, htable]
    exact Store.ownerAt?_eq_some_iff.2 ⟨hhop, hdefines⟩
  refine ⟨b, hb, hmethod, hcall, ?_⟩
  simp only [expr, Eval.read, hfound, Option.bind_some, hcell]

/-- Outside all classes `this` is not there. -/
theorem Setting.Sound.this_of_outside (sound : Γ.Sound w.store) (apart : Γ.globals ≠ Γ.builtins)
    (undeclared : ∀ q ∈ Γ.programs, "this" ∉ Program.declared q)
    (hmeets : Step.Meets (Program.steps p) [.locate "this" id] names regions)
    (htable : table.get? id = names.distance? "this") (owned : Region.Owned regions none) (n : Nat) :
    expr (.lexical Γ.globals table) (n + 1) (.this id) scope w =
      .error (.failed (.undefinedVariable "this" id)) w := by
  have hmissing : w.store.owner? Γ.globals "this" = none := by
    cases howner : w.store.owner? Γ.globals "this" with
    | none => rfl
    | some target =>
        rcases sound.mem_of_owner?_globals apart howner with ⟨q, hq, hdeclared⟩ | hbuiltin
        · exact absurd hdeclared (undeclared q hq)
        · simp [builtinNames] at hbuiltin
  have hfound : Finder.lexical Γ.globals table w.store scope "this" id = none := by
    rw [hmeets.distance?_this_of_outside (Program.fittingAll_steps p) owned] at htable
    simp only [Finder.lexical, htable]
    exact hmissing
  simp only [expr, Eval.read, hfound, Option.bind_none]

end Evaluations

/-! ### Occurrences and their ids -/

/-- An occurrence is a reference, so it has an id of the program. -/
theorem Program.mem_ids_of_mem_thises {p : Program} (h : "this" ∉ Program.names p) {id : NodeId}
    {owner : Option Function} (hthis : (id, owner) ∈ p.thises) : id ∈ Program.ids p := by
  obtain ⟨around, hmention, _⟩ := (Program.accounts h).mentioned id owner hthis
  rw [Program.ids, ← Step.ids_mentionsOfAll []]
  exact List.mem_map.2 ⟨_, hmention, rfl⟩

/-- If ids are different, then the owner of an occurrence is that of the place where the analysis meets it. -/
theorem Step.Meets.owned {p : Program} (h : "this" ∉ Program.names p) (distinct : (Program.ids p).Nodup)
    {id : NodeId} {names : Names} {regions : List Region}
    (hmeets : Meets (Program.steps p) [.locate "this" id] names regions) {owner : Option Function}
    (hthis : (id, owner) ∈ p.thises) : Region.Owned regions owner := by
  obtain ⟨around, hmention, howned⟩ := (Program.accounts h).mentioned id owner hthis
  rw [Program.ids, ← Step.ids_mentionsOfAll []] at distinct
  have hsame : (⟨"this", id, around⟩ : Mention) = ⟨"this", id, regions⟩ :=
    List.inj_on_of_nodup_map distinct hmention hmeets.mem_mentions rfl
  cases hsame
  exact howned

/-- Programs without common ids. -/
theorem Program.eq_of_mem_ids {ps : List Program} (distinct : (ps.flatMap Program.ids).Nodup) {p q : Program}
    (hp : p ∈ ps) (hq : q ∈ ps) {id : NodeId} (hid : id ∈ Program.ids p) (hid' : id ∈ Program.ids q) :
    p = q := by
  by_contra hne
  obtain ⟨_, apart⟩ := List.nodup_flatMap.1 distinct
  have hsymm : Std.Symm (Function.onFun List.Disjoint Program.ids) := ⟨fun _ _ h => List.Disjoint.symm h⟩
  exact apart.forall hp hq hne hid hid'

/-! ### Sessions -/

namespace Session

/-- In the course of one of the lines a task is begun. -/
def Reaches (s : Session) (lines : List Line) (find : Finder) (m : Nat) (u : Task) (v : World) : Prop :=
  ∃ fuel i p a, s.Turn lines fuel i p a ∧ find = (i.learn a).finder ∧
    ProgramReaches find fuel i.globals p i.world m u v

/-- The bindings that are made in the course of the lines. -/
def Binds (s : Session) (lines : List Line) (b : Binding) : Prop :=
  ∃ find m u v, s.Reaches lines find (m + 1) u v ∧ Task.BindsHere find m u v b

/-- A binding is made by the first line or later. -/
theorem binds_cons {s : Session} {line : Line} {rest : List Line} {b : Binding} :
    s.Binds (line :: rest) b ↔
      (∃ p a, s.Accepts line.source p a ∧ ProgramBinds (s.interpreter.learn a).finder line.fuel
        s.interpreter.globals p s.interpreter.world b) ∨
      (s.submit line.fuel line.source).2.Binds rest b := by
  constructor
  · rintro ⟨find, m, u, v, ⟨fuel, i, p, a, hturn, rfl, hreaches⟩, hbinds⟩
    cases hturn with
    | here accepts => exact .inl ⟨p, a, accepts, m, u, v, hreaches, hbinds⟩
    | later hturn => exact .inr ⟨_, m, u, v, ⟨fuel, i, p, a, hturn, rfl, hreaches⟩, hbinds⟩
  · rintro (⟨p, a, accepts, m, u, v, hreaches, hbinds⟩ | ⟨find, m, u, v, hreaches, hbinds⟩)
    · exact ⟨_, m, u, v, ⟨_, _, p, a, .here accepts, rfl, hreaches⟩, hbinds⟩
    · obtain ⟨fuel, i, p, a, hturn, hfind, hprogram⟩ := hreaches
      exact ⟨find, m, u, v, ⟨fuel, i, p, a, .later hturn, hfind, hprogram⟩, hbinds⟩

/-- A line that is accepted leaves the world in which its program ends. -/
theorem world_submit {s : Session} {source : String} {p : Program} {a : Annotations}
    (accepts : s.Accepts source p a) (fuel : Nat) :
    (s.submit fuel source).2.interpreter.world = outcomeWorld
      (program (s.interpreter.learn a).finder fuel s.interpreter.globals p s.interpreter.world) := by
  rw [submit_of_accepts accepts, Interpreter.run_eq]
  cases program (s.interpreter.learn a).finder fuel s.interpreter.globals p s.interpreter.world <;> rfl

/-- No two bindings that are made in the course of a session have the same scope. -/
theorem binds_apart (s : Session) (lines : List Line) :
    Apart (s.Binds lines) s.interpreter.world (s.after lines).interpreter.world := by
  induction lines generalizing s with
  | nil =>
      apply Apart.refl.mono
      rintro b ⟨_, _, _, _, ⟨_, _, _, _, hturn, _⟩, _⟩
      cases hturn
  | cons line rest ih =>
      have hrest := ih (s.submit line.fuel line.source).2
      rcases s.accepts_or_rejects line.source with ⟨p, a, accepts⟩ | ⟨problem, rejects⟩
      · have hline := program_apart (s.interpreter.learn a).finder line.fuel s.interpreter.globals p
          s.interpreter.world
        rw [← world_submit accepts] at hline
        apply (hline.append hrest).mono
        intro b hb
        rcases binds_cons.1 hb with ⟨p', a', accepts', hb⟩ | hb
        · obtain ⟨rfl, rfl⟩ := accepts.unique accepts'
          exact .inl hb
        · exact .inr hb
      · have hsame : (s.submit line.fuel line.source).2.interpreter = s.interpreter := by
          rw [submit_of_rejects rejects]
        rw [hsame] at hrest
        apply hrest.mono
        intro b hb
        rcases binds_cons.1 hb with ⟨_, _, accepts, _⟩ | hb
        · exact absurd rejects (accepts.not_rejects problem)
        · exact hb

/-- In a program that was read from a text nothing is named `this`, because it is a keyword. -/
theorem Accepts.this_notMem_names {s : Session} {source : String} {p : Program} {a : Annotations}
    (h : s.Accepts source p a) : "this" ∉ Program.names p := by
  obtain ⟨tokens, hlex, hparse⟩ := h.read
  have hsound := parse_sound (legibleAll_of_tokenize hlex) hparse
  intro hthis
  have hname : isName "this" = true := hsound.2 "this" hthis
  exact absurd hname (by decide)

theorem Turn.this_notMem_names {s : Session} {lines : List Line} {fuel : Nat} {i : Interpreter} {p : Program}
    {a : Annotations} (h : s.Turn lines fuel i p a) : "this" ∉ Program.names p := by
  induction h with
  | here accepts => exact accepts.this_notMem_names
  | later _ ih => exact ih

/-- The store of a session is faithful, and no method is bound among its globals. -/
structure Faithful (bound : Binding → Prop) (s : Session) : Prop where
  store : s.interpreter.world.store.Faithful bound
  plain : s.interpreter.world.store.Plain s.interpreter.globals

theorem faithful_new (bound : Binding → Prop) (sink : Sink) : Faithful bound (new sink) where
  store := by
    have houtside : ∀ {scope : ScopeId} {o : Origin},
        (Interpreter.new sink).world.store.origin? scope = some o → o = .outside := by
      intro scope o ho
      have hlt : scope.index < 2 := Store.lt_size_of_origin? ho
      cases (Interpreter.origin?_new scope.index hlt).symm.trans ho
      rfl
    constructor
    · intro scope name v hv
      rcases Interpreter.cell?_new hv with ⟨_, _, ⟨identity, rfl⟩ | rfl⟩
      · trivial
      · trivial
    · intro object name v hv
      simp [Session.new, Interpreter.new, Store.newBuiltins, Store.newScope, Store.newIdentity,
        Store.empty, Store.put, Store.fields] at hv
    · intro scope f hscope
      cases houtside hscope
    · intro scope m hscope
      cases houtside hscope
  plain := ⟨.outside, Interpreter.origin?_new 1 (by decide), fun m hm => by cases hm⟩

namespace Faithful

variable {bound : Binding → Prop} {s : Session} {line : Line} {rest : List Line}

/-- A line that is accepted begins in a faithful store. -/
theorem begins (h : Faithful bound s) (bindings : ∀ b, s.Binds (line :: rest) b → bound b) {p : Program}
    {a : Annotations} (accepts : s.Accepts line.source p a) :
    ProgramBegins bound (s.interpreter.learn a).finder line.fuel s.interpreter.globals p
      s.interpreter.world where
  store := h.store
  names := accepts.this_notMem_names
  plain := h.plain
  bindings b hb := bindings b (binds_cons.2 (.inl ⟨p, a, accepts, hb⟩))

/-- Every line leaves a faithful store behind. -/
theorem submit (h : Faithful bound s) (bindings : ∀ b, s.Binds (line :: rest) b → bound b) :
    Faithful bound (s.submit line.fuel line.source).2 := by
  rcases s.accepts_or_rejects line.source with ⟨p, a, accepts⟩ | ⟨problem, rejects⟩
  · obtain ⟨faithful, grows⟩ := program_keeps (h.begins bindings accepts)
    rw [← world_submit accepts] at faithful grows
    have hglobals : (s.submit line.fuel line.source).2.interpreter.globals = s.interpreter.globals := by
      rw [submit_of_accepts accepts]
      exact Interpreter.globals_run line.fuel s.interpreter p a
    constructor
    · exact faithful
    · rw [hglobals]
      exact h.plain.mono grows
  · rw [submit_of_rejects rejects]
    exact ⟨h.store, h.plain⟩

end Faithful

/-- Every turn begins in a store that is faithful to the bindings of the session. -/
theorem Turn.begins {bound : Binding → Prop} {s : Session} {lines : List Line} {fuel : Nat} {i : Interpreter}
    {p : Program} {a : Annotations} (hturn : s.Turn lines fuel i p a) (h : Faithful bound s)
    (bindings : ∀ b, s.Binds lines b → bound b) :
    ProgramBegins bound (i.learn a).finder fuel i.globals p i.world := by
  induction hturn with
  | here accepts => exact h.begins bindings accepts
  | later _ ih =>
      apply ih (h.submit bindings)
      intro b hb
      exact bindings b (binds_cons.2 (.inr hb))

/-- The place where the analysis has met a `this` that is evaluated in this scope. The programs `ps` have run,
    `p` is the one of the occurrence, and the scopes around the evaluation stand for the regions around the
    occurrence. -/
structure Occurs (s : Session) (lines : List Line) (table : Annotations) (id : NodeId) (scope : ScopeId)
    (w : World) (ps : List Program) (p : Program) (names : Names) (regions : List Region) : Prop where
  ran : ∀ q ∈ ps, s.Runs lines q
  mem : p ∈ ps
  sound : (Setting.session ps False).Sound w.store
  meets : Step.Meets (Program.steps p) [.locate "this" id] names regions
  chain : w.store.Chain ⟨1⟩ scope regions
  found : table.get? id = names.distance? "this"
  owned : ∀ q owner, s.Runs lines q → (id, owner) ∈ q.thises → Region.Owned regions owner

theorem Runs.this_notMem_names {s : Session} {lines : List Line} {p : Program} (h : s.Runs lines p) :
    "this" ∉ Program.names p := by
  obtain ⟨_, _, _, hturn⟩ := h
  exact hturn.this_notMem_names

/-- Every evaluation of `this` is one of an occurrence that the analysis has met, and has the distance that was
    found there. -/
theorem Reaches.occurs {sink : Sink} {lines : List Line}
    (few : ((new sink).after lines).drawn ≤ NodeId.count) {find : Finder} {n : Nat} {id : NodeId}
    {scope : ScopeId} {w : World} (reached : (new sink).Reaches lines find (n + 1) (.expr (.this id) scope) w) :
    ∃ table ps p names regions, find = .lexical ⟨1⟩ table ∧
      (new sink).Occurs lines table id scope w ps p names regions := by
  obtain ⟨fuel, i, p, a, hturn, rfl, hreaches⟩ := reached
  obtain ⟨all, past, hruns, hturns⟩ := (Past.start sink).after lines
  obtain ⟨first, rest, hall, history, accepted⟩ := hturns fuel i p a hturn
  rw [List.nil_append] at past history
  have distinct : (all.flatMap Program.ids).Nodup := (past.ids few).nodup
  have hearlier : (first ++ [p]).Sublist all := by
    rw [hall, List.append_cons first p rest]
    exact List.sublist_append_left _ _
  obtain ⟨sound, referred⟩ :=
    history.referred accepted False (fun strict => strict.elim) hreaches.visits
  have tabulated := history.tabulated accepted ((hearlier.flatMap Program.ids).nodup distinct) False
  obtain ⟨q₀, hq₀, names, regions, hmeets, hchain, hfound, _⟩ := referred.located tabulated
  have hmem : q₀ ∈ all := hearlier.subset hq₀
  refine ⟨_, first ++ [p], q₀, names, regions, ?_, fun q hq => hruns q (hearlier.subset hq), hq₀, sound, hmeets,
    hchain, hfound, fun q owner hrun hthis => ?_⟩
  · rw [Interpreter.finder, show (i.learn a).globals = i.globals from rfl, history.globals_eq]
  · -- no other program has this id
    obtain ⟨fuel', i', a', hturn'⟩ := hrun
    obtain ⟨first', rest', hall', _, _⟩ := hturns fuel' i' q a' hturn'
    have hq : q ∈ all := hall' ▸ List.mem_append_right _ List.mem_cons_self
    have hid := Program.mem_ids_of_mem_thises hturn'.this_notMem_names hthis
    have hsame : q = q₀ := Program.eq_of_mem_ids distinct hq hmem hid hmeets.mem_idsOfAll
    rw [hsame] at hthis
    have hids := (List.nodup_flatMap.1 distinct).1 q₀ hmem
    exact hmeets.owned (hruns q₀ hmem).this_notMem_names hids hthis

/-- In every session, an evaluation of a `this` that is written in a method lies in a call of this method. One
    binding belongs to the call, and its instance is what the evaluation gives. An evaluation of a `this` that is
    written outside all classes fails. Every `this` that is evaluated is written in one of these ways. -/
theorem this_is_the_receiver {sink : Sink} {lines : List Line}
    (few : ((new sink).after lines).drawn ≤ 2 ^ 32) {find : Finder} {n : Nat} {id : NodeId}
    {scope : ScopeId} {w : World} (reached : (new sink).Reaches lines find (n + 1) (.expr (.this id) scope) w) :
    (∀ q m, (new sink).Runs lines q → (id, some m) ∈ q.thises →
      (∃! b, (new sink).Binds lines b ∧ w.store.InnermostCall scope b) ∧
      ∀ b, (new sink).Binds lines b → w.store.InnermostCall scope b →
        b.method = m ∧ expr find (n + 1) (.this id) scope w = .ok b.receiver w) ∧
    (∀ q, (new sink).Runs lines q → (id, none) ∈ q.thises →
      expr find (n + 1) (.this id) scope w = .error (.failed (.undefinedVariable "this" id)) w) ∧
    ∃ q owner, (new sink).Runs lines q ∧ (id, owner) ∈ q.thises := by
  obtain ⟨table, ps, p, names, regions, hfind, h⟩ := reached.occurs few
  refine ⟨fun q m hq hthis => ?_, fun q hq hthis => ?_, ?_⟩
  · have faithful : w.store.Faithful ((new sink).Binds lines) := by
      obtain ⟨_, _, _, _, hturn, rfl, hreaches⟩ := reached
      exact (hreaches.begins (hturn.begins (faithful_new _ sink) fun b hb => hb)).store
    obtain ⟨b, hb, hmethod, hcall, houtcome⟩ :=
      faithful.this_of_method h.meets h.chain h.found (h.owned q (some m) hq hthis) n
    have honly : ∀ b', (new sink).Binds lines b' → w.store.InnermostCall scope b' → b' = b := by
      intro b' hb' hcall'
      exact ((new sink).binds_apart lines).unique b' b hb' hb (hcall'.scope_eq hcall)
    refine ⟨⟨b, ⟨hb, hcall⟩, fun b' h => honly b' h.1 h.2⟩, fun b' hb' hcall' => ?_⟩
    rw [honly b' hb' hcall', hfind]
    exact ⟨hmethod, houtcome⟩
  · rw [hfind]
    apply h.sound.this_of_outside (by simp [Setting.session]) _ h.meets h.found (h.owned q none hq hthis)
    intro q hq
    exact Program.this_notMem_declared (h.ran q hq).this_notMem_names
  · have hp := h.ran p h.mem
    obtain ⟨owner, hthis, _⟩ :=
      (Program.accounts hp.this_notMem_names).listed _ h.meets.mem_mentions rfl
    exact ⟨p, owner, hp, hthis⟩

/-- A line that declares a class. Its method gives a function that gives `this`. -/
def declaring : Line := ⟨"class C \x7b m() \x7b return () => \x7b return this \x7d \x7d \x7d", 9⟩

/-- A line that keeps the function of an instance. -/
def keeping : Line := ⟨"f := C().m()", 9⟩

/-- A line that calls the function once the method has returned. -/
def recalling : Line := ⟨"f()", 9⟩

/-- The method that the first line declares. -/
def escapingMethod : Function :=
  ⟨some "m", [], none, [.ret (some (.lambda ⟨none, [], none, [.ret (some (.this ⟨0⟩))]⟩))]⟩

/-- The interpreter before the last line. -/
def beforeRecalling : Interpreter :=
  let declared := (Interpreter.new default).run 9 [⟨0, .classDecl "C" [escapingMethod]⟩]
    (Annotations.empty.record ⟨0⟩ 2)
  (declared.2.run 9 [⟨0, .declare "f" (.call (.member (.call (.var "C" ⟨2⟩) []) "m") [])⟩] .empty).2

set_option maxRecDepth 2000 in
/-- The last line comes to the `this` of the method. -/
theorem recalling_reaches :
    ((new default).after [declaring, keeping, recalling]).drawn ≤ 2 ^ 32 ∧
    (new default).Runs [declaring, keeping, recalling] [⟨0, .classDecl "C" [escapingMethod]⟩] ∧
    ∃ w, (new default).Reaches [declaring, keeping, recalling] (beforeRecalling.learn .empty).finder 3
      (.expr (.this ⟨0⟩) ⟨4⟩) w := by
  have hdeclaring : tokenize declaring.source = .ok
      [⟨.classWord, "class", 0⟩, ⟨.identifier, "C", 0⟩, ⟨.openBrace, "\x7b", 0⟩, ⟨.identifier, "m", 0⟩,
        ⟨.openParen, "(", 0⟩, ⟨.closeParen, ")", 0⟩, ⟨.openBrace, "\x7b", 0⟩, ⟨.returnWord, "return", 0⟩,
        ⟨.openParen, "(", 0⟩, ⟨.closeParen, ")", 0⟩, ⟨.arrow, "=>", 0⟩, ⟨.openBrace, "\x7b", 0⟩,
        ⟨.returnWord, "return", 0⟩, ⟨.thisWord, "this", 0⟩, ⟨.closeBrace, "\x7d", 0⟩,
        ⟨.closeBrace, "\x7d", 0⟩, ⟨.closeBrace, "\x7d", 0⟩, .eof 1] := by
    decide +kernel
  have hkeeping : tokenize keeping.source = .ok
      [⟨.identifier, "f", 0⟩, ⟨.declare, ":=", 0⟩, ⟨.identifier, "C", 0⟩, ⟨.openParen, "(", 0⟩,
        ⟨.closeParen, ")", 0⟩, ⟨.dot, ".", 0⟩, ⟨.identifier, "m", 0⟩, ⟨.openParen, "(", 0⟩,
        ⟨.closeParen, ")", 0⟩, .eof 1] := by
    decide +kernel
  have hrecalling : tokenize recalling.source = .ok
      [⟨.identifier, "f", 0⟩, ⟨.openParen, "(", 0⟩, ⟨.closeParen, ")", 0⟩, .eof 1] := by
    decide +kernel
  have accepts₁ : (new default).Accepts declaring.source [⟨0, .classDecl "C" [escapingMethod]⟩]
      (Annotations.empty.record ⟨0⟩ 2) := ⟨⟨_, hdeclaring, rfl⟩, rfl⟩
  have hfirst : (new default).Runs [declaring, keeping, recalling] [⟨0, .classDecl "C" [escapingMethod]⟩] :=
    ⟨_, _, _, .here accepts₁⟩
  obtain ⟨s₁, hs₁⟩ : ∃ s, s = ((new default).submit declaring.fuel declaring.source).2 := ⟨_, rfl⟩
  have hdrawn₁ : s₁.drawn = 1 := by
    rw [hs₁, drawn_submit, drawnBy_of_tokenize hdeclaring]
    rfl
  have accepts₂ : s₁.Accepts keeping.source
      [⟨0, .declare "f" (.call (.member (.call (.var "C" ⟨2⟩) []) "m") [])⟩] .empty := by
    refine ⟨⟨_, hkeeping, ?_⟩, rfl⟩
    rw [hdrawn₁]
    rfl
  obtain ⟨s₂, hs₂⟩ : ∃ s, s = (s₁.submit keeping.fuel keeping.source).2 := ⟨_, rfl⟩
  have hdrawn₂ : s₂.drawn = 3 := by
    rw [hs₂, drawn_submit, drawnBy_of_tokenize hkeeping, hdrawn₁]
    rfl
  have hinterpreter : s₂.interpreter = beforeRecalling := by
    rw [hs₂, submit_of_accepts accepts₂, hs₁, submit_of_accepts accepts₁]
    rfl
  have accepts₃ : s₂.Accepts recalling.source [⟨0, .expr (.call (.var "f" ⟨3⟩) [])⟩] .empty := by
    refine ⟨⟨_, hrecalling, ?_⟩, rfl⟩
    rw [hdrawn₂]
    rfl
  have few : ((new default).after [declaring, keeping, recalling]).drawn ≤ 2 ^ 32 := by
    rw [after_cons, ← hs₁, after_cons, ← hs₂, after_cons, after, List.foldl_nil, drawn_submit,
      drawnBy_of_tokenize hrecalling, hdrawn₂]
    decide
  have hturn : (new default).Turn [declaring, keeping, recalling] 9 beforeRecalling
      [⟨0, .expr (.call (.var "f" ⟨3⟩) [])⟩] .empty := by
    apply Turn.later
    rw [← hs₁]
    apply Turn.later
    rw [← hs₂, ← hinterpreter]
    exact .here accepts₃
  have hreaches : ∃ w, ProgramReaches (beforeRecalling.learn .empty).finder 9 beforeRecalling.globals
      [⟨0, .expr (.call (.var "f" ⟨3⟩) [])⟩] beforeRecalling.world 3 (.expr (.this ⟨0⟩) ⟨4⟩) w := by
    apply Exists.intro
    apply ProgramReaches.here
    apply Task.Reaches.inside .value
    apply Task.Reaches.inside (.call rfl rfl)
    apply Task.Reaches.inside .closure
    apply Task.Reaches.inside (.body rfl rfl rfl)
    exact .inside .head (.inside .returned .here)
  obtain ⟨w, hprogram⟩ := hreaches
  exact ⟨few, hfirst, w, 9, _, _, _, hturn, rfl, hprogram⟩

/-- A line with a `this` outside all classes. -/
def receiverless : Line := ⟨"this", 9⟩

theorem receiverless_reaches : ((new default).after [receiverless]).drawn ≤ 2 ^ 32 ∧
    (new default).Runs [receiverless] [⟨0, .expr (.this ⟨0⟩)⟩] ∧
    (new default).Reaches [receiverless] ((new default).interpreter.learn .empty).finder 8
      (.expr (.this ⟨0⟩) ⟨1⟩) (new default).interpreter.world := by
  have hlex : tokenize receiverless.source = .ok [⟨.thisWord, "this", 0⟩, .eof 1] := by
    decide +kernel
  have accepts : (new default).Accepts receiverless.source [⟨0, .expr (.this ⟨0⟩)⟩] .empty :=
    ⟨⟨_, hlex, rfl⟩, rfl⟩
  refine ⟨?_, ⟨_, _, _, .here accepts⟩, _, _, _, _, .here accepts, rfl, .here (.inside .value .here)⟩
  rw [after_cons, after, List.foldl_nil, drawn_submit, drawnBy_of_tokenize hlex]
  decide

/-- The function that has left its method still gives the instance, and outside all classes there is none. -/
theorem this_is_the_receiver_of_escaped :
    (∃ find scope w b,
      ((new default).after [declaring, keeping, recalling]).drawn ≤ 2 ^ 32 ∧
      (new default).Reaches [declaring, keeping, recalling] find 3 (.expr (.this ⟨0⟩) scope) w ∧
      (new default).Binds [declaring, keeping, recalling] b ∧ b.method = escapingMethod ∧
      w.store.InnermostCall scope b ∧ expr find 3 (.this ⟨0⟩) scope w = .ok b.receiver w) ∧
    ∃ find scope w, ((new default).after [receiverless]).drawn ≤ 2 ^ 32 ∧
      (new default).Reaches [receiverless] find 8 (.expr (.this ⟨0⟩) scope) w ∧
      expr find 8 (.this ⟨0⟩) scope w = .error (.failed (.undefinedVariable "this" ⟨0⟩)) w := by
  constructor
  · obtain ⟨few, hruns, w, reached⟩ := recalling_reaches
    obtain ⟨⟨b, ⟨hb, hcall⟩, _⟩, hreceiver⟩ :=
      (this_is_the_receiver few reached).1 _ escapingMethod hruns List.mem_cons_self
    obtain ⟨hmethod, houtcome⟩ := hreceiver b hb hcall
    exact ⟨_, _, w, b, few, reached, hb, hmethod, hcall, houtcome⟩
  · obtain ⟨few, hruns, reached⟩ := receiverless_reaches
    have houtcome := (this_is_the_receiver few reached).2.1 _ hruns List.mem_cons_self
    exact ⟨_, _, _, few, reached, houtcome⟩

end Session

end Kiln
