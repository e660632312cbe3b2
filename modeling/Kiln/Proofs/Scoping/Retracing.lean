/-
Module: Kiln.Proofs.Scoping.Retracing
Purpose: The scope analysis of two programs of which one retraces the other: where the first is accepted the
  second is accepted too, and knows the same names at the same points. The distances of the two are compared through
  tables that are given beforehand and are checked along the way, so that nothing need be said about the order
  in which distances are found.
Main exports: Names.Same, Step.Measured, Step.MeasuredAll, Step.measuredAll_of_accepted,
  Step.get?_of_measured, Step.Retraces, Step.Retraces.append, Step.Retraces.within,
  exists_resolve_of_retraces
-/
import Kiln.Proofs.Scoping.Acceptance
import Kiln.Proofs.Session.History

namespace Kiln

/-- The same names are known, whatever distances have been found. -/
structure Names.Same (n n' : Names) : Prop where
  locals : n'.locals = n.locals
  topLevel : n'.topLevel = n.topLevel
  enclosing : n'.enclosing = n.enclosing

namespace Names.Same

variable {n n' k : Names}

theorem refl (n : Names) : n.Same n := ⟨rfl, rfl, rfl⟩

theorem symm (h : n.Same n') : n'.Same n := ⟨h.locals.symm, h.topLevel.symm, h.enclosing.symm⟩

theorem trans (h : n.Same n') (h' : n'.Same k) : n.Same k :=
  ⟨h'.locals.trans h.locals, h'.topLevel.trans h.topLevel, h'.enclosing.trans h.enclosing⟩

theorem innermost (h : n.Same n') : n'.innermost = n.innermost := by
  rw [Names.innermost, Names.innermost, h.locals, h.topLevel]

theorem distance? (h : n.Same n') (name : String) : n'.distance? name = n.distance? name := by
  rw [Names.distance?, Names.distance?, h.locals]

theorem mark (h : n.Same n') (name : String) (ready : Bool) :
    (n.mark name ready).Same (n'.mark name ready) := by
  unfold Names.mark
  rw [h.locals]
  cases n.locals with
  | nil => exact ⟨rfl, by rw [h.topLevel], h.enclosing⟩
  | cons table outer => exact ⟨rfl, h.topLevel, h.enclosing⟩

theorem push (h : n.Same n') : n.push.Same n'.push :=
  ⟨by rw [Names.push, Names.push, h.locals], h.topLevel, h.enclosing⟩

end Names.Same

/-! ### Distances that are given beforehand -/

namespace Step

mutual

/-- The table `t` has the distance of every reference of a step, when these names are known before it. -/
def Measured (t : NodeId → Option Nat) : Step → Names → Prop
  | .locate name id, n => t id = n.distance? name
  | .within region body, n => MeasuredAll t body (n.enter region)
  | _, _ => True

/-- The table `t` has the distance of every reference of several steps. -/
def MeasuredAll (t : NodeId → Option Nat) : List Step → Names → Prop
  | [], _ => True
  | step :: rest, n => step.Measured t n ∧ ∀ m, step.run n = .ok () m → MeasuredAll t rest m

end

theorem measuredAll_append {t : NodeId → Option Nat} {x y : List Step} {n : Names} :
    MeasuredAll t (x ++ y) n ↔
      MeasuredAll t x n ∧ ∀ m, runAll x n = .ok () m → MeasuredAll t y m := by
  induction x generalizing n with
  | nil =>
      simp only [List.nil_append, MeasuredAll, true_and, runAll_nil_eq_ok]
      exact ⟨fun h m hm => hm ▸ h, fun h => h n rfl⟩
  | cons step rest ih =>
      simp only [List.cons_append, MeasuredAll, ih, runAll_cons_eq_ok]
      constructor
      · rintro ⟨hstep, hrest⟩
        refine ⟨⟨hstep, fun m hm => (hrest m hm).1⟩, ?_⟩
        rintro k ⟨m, hm, hk⟩
        exact (hrest m hm).2 k hk
      · rintro ⟨⟨hstep, hrest⟩, hy⟩
        exact ⟨hstep, fun m hm => ⟨hrest m hm, fun k hk => hy k ⟨m, hm, hk⟩⟩⟩

theorem measuredAll_singleton {t : NodeId → Option Nat} {step : Step} {n : Names} :
    MeasuredAll t [step] n ↔ step.Measured t n := by
  simp only [MeasuredAll, implies_true, and_true]

section Accepted

-- the steps of a whole program, and the names at its end
variable {all : List Step} {last : Names}

mutual

theorem measured_of_meets (accepted : runAll all .initial = .ok () last) (distinct : (idsOfAll all).Nodup) :
    ∀ (step : Step) (rest : List Step) {names : Names} {regions : List Region},
      Meets all (step :: rest) names regions → step.Measured last.found.get? names
  | .declare _, _, _, _, _ => trivial
  | .define _, _, _, _, _ => trivial
  | .refuse _, _, _, _, _ => trivial
  | .exit, _, _, _, _ => trivial
  | .locate _ _, _, _, _, h => h.get?_locate accepted distinct
  | .within region body, rest, _, _, h => by
      have here : Meets all [.within region body] _ _ := h.first (a := [.within region body]) (b := rest)
      exact measuredAll_of_meets accepted distinct body here.inside

/-- The table that the analysis ends with has the distances of all references on the way. -/
theorem measuredAll_of_meets (accepted : runAll all .initial = .ok () last)
    (distinct : (idsOfAll all).Nodup) : ∀ (steps : List Step) {names : Names} {regions : List Region},
      Meets all steps names regions → MeasuredAll last.found.get? steps names
  | [], _, _, _ => trivial
  | step :: rest, names, _, h => by
      refine ⟨measured_of_meets accepted distinct step rest h, fun m hm => ?_⟩
      have taken : runAll [step] names = .ok () m := by
        rw [runAll_singleton]
        exact hm
      exact measuredAll_of_meets accepted distinct rest (h.next (a := [step]) taken)

end

theorem measuredAll_of_accepted (accepted : runAll all .initial = .ok () last)
    (distinct : (idsOfAll all).Nodup) : MeasuredAll last.found.get? all .initial :=
  measuredAll_of_meets accepted distinct all .start

end Accepted

/-- Distances found so far are those of the table. -/
def Agrees (t : NodeId → Option Nat) (n : Names) : Prop :=
  ∀ id, n.found.get? id = none ∨ n.found.get? id = t id

section Found

variable {t : NodeId → Option Nat}

mutual

theorem run_agrees : ∀ (step : Step) {n m : Names}, step.run n = .ok () m → step.Measured t n →
    Agrees t n → Agrees t m ∧ (∀ id, n.found.get? id = t id → m.found.get? id = t id) ∧
      ∀ id ∈ step.references.map (·.id), m.found.get? id = t id
  | .declare name, n, m, h, _, hn => by
      rw [(run_declare_eq_ok.1 h).2, Agrees, found_mark]
      exact ⟨hn, fun _ hid => hid, by simp [references]⟩
  | .define name, n, m, h, _, hn => by
      rw [run_define_eq_ok.1 h, Agrees, found_mark]
      exact ⟨hn, fun _ hid => hid, by simp [references]⟩
  | .refuse _, n, m, h, _, hn => by
      rw [(run_refuse_eq_ok.1 h).2]
      exact ⟨hn, fun _ hid => hid, by simp [references]⟩
  | .exit, n, m, h, _, hn => by
      rw [(run_exit_eq_ok.1 h).2]
      exact ⟨hn, fun _ hid => hid, by simp [references]⟩
  | .locate name id, n, m, h, hmeasured, hn => by
      rw [run_locate] at h
      cases h
      have hid : t id = n.distance? name := hmeasured
      cases hdistance : n.distance? name with
      | none =>
          rw [hdistance] at hid
          refine ⟨hn, fun _ h => h, ?_⟩
          intro other hother
          cases List.mem_singleton.1 hother
          rcases hn id with hnone | hsame
          · exact hnone.trans hid.symm
          · exact hsame
      | some d =>
          rw [hdistance] at hid
          refine ⟨?_, ?_, ?_⟩
          · intro other
            rw [Annotations.get?_record]
            split
            · next heq => exact .inr (heq ▸ hid.symm)
            · exact hn other
          · intro other hother
            rw [Annotations.get?_record]
            split
            · next heq => exact heq ▸ hid.symm
            · exact hother
          · intro other hother
            cases List.mem_singleton.1 hother
            rw [Annotations.get?_record, if_pos rfl]
            exact hid.symm
  | .within region body, n, m, h, hmeasured, hn => by
      obtain ⟨k, hk, rfl⟩ := run_within_eq_ok.1 h
      have hinside : Agrees t (n.enter region) := by
        rw [Agrees, found_enter]
        exact hn
      have hbody := runAll_agrees body hk hmeasured hinside
      rw [found_enter] at hbody
      rw [Agrees, found_leave, ids_within]
      exact hbody

/-- After steps whose distances are those of a table, the distances found are those of the table. -/
theorem runAll_agrees : ∀ (steps : List Step) {n m : Names}, runAll steps n = .ok () m →
    MeasuredAll t steps n → Agrees t n → Agrees t m ∧
      (∀ id, n.found.get? id = t id → m.found.get? id = t id) ∧
      ∀ id ∈ idsOfAll steps, m.found.get? id = t id
  | [], n, m, h, _, hn => by
      rw [runAll_nil_eq_ok.1 h]
      exact ⟨hn, fun _ hid => hid, fun id hid => by cases hid⟩
  | step :: rest, n, m, h, hmeasured, hn => by
      obtain ⟨k, hk, hm⟩ := runAll_cons_eq_ok.1 h
      obtain ⟨hagrees, hkept, hfound⟩ := run_agrees step hk hmeasured.1 hn
      obtain ⟨hagrees', hkept', hfound'⟩ := runAll_agrees rest hm (hmeasured.2 k hk) hagrees
      refine ⟨hagrees', fun id hid => hkept' id (hkept id hid), ?_⟩
      rw [idsOfAll_cons]
      intro id hid
      rcases List.mem_append.1 hid with hid | hid
      · exact hkept' id (hfound id hid)
      · exact hfound' id hid

end

/-- The distances that the analysis finds are those of the table, if the table has the distances of all
    references on the way. -/
theorem get?_of_measured {steps : List Step} {last : Names}
    (accepted : runAll steps .initial = .ok () last) (measured : MeasuredAll t steps .initial)
    {id : NodeId} (hid : id ∈ idsOfAll steps) : last.found.get? id = t id :=
  (runAll_agrees steps accepted measured fun id => .inl (Annotations.get?_empty id)).2.2 id hid

end Found

/-! ### Steps that retrace others -/

/-- The inside of a region is analysed between entering and leaving it, also where it fails. -/
theorem run_within (region : Region) (body : List Step) (n : Names) :
    (Step.within region body).run n = match runAll body (n.enter region) with
      | .ok () k => .ok () (n.leave k region)
      | .error e k => .error e (n.leave k region) := by
  rw [run]
  cases region with
  | block _ => rfl
  | methods _ => rfl
  | function kind f =>
      simp only [Region.around, Resolver.inFunction, Resolver.inScope, Resolver.around]
      have henter : ({ n with enclosing := some kind } : Names).push = n.enter (.function kind f) := rfl
      rw [henter]
      cases runAll body (n.enter (.function kind f)) <;> rfl

/-- A region leaves the names around it as they were. -/
theorem same_of_run_within {region : Region} {body : List Step} {n m : Names}
    (h : (Step.within region body).run n = .ok () m) : n.Same m := by
  obtain ⟨k, hk, rfl⟩ := run_within_eq_ok.1 h
  have hinside : (n.enter region).locals ≠ [] := by
    obtain ⟨table, htable⟩ := n.locals_enter region
    rw [htable]
    exact List.cons_ne_nil _ _
  refine ⟨(runAll_grows body hk).locals_leave, ?_, run_enclosing _ h⟩
  rw [topLevel_leave, runAll_topLevel body hinside hk, topLevel_enter]

/-- Steps one after the other fail if the first ones do, or the second ones after them. -/
theorem runAll_append_eq_error {x y : List Step} {n k : Names} {e : ResolveError} :
    runAll (x ++ y) n = .error e k ↔
      runAll x n = .error e k ∨ ∃ m, runAll x n = .ok () m ∧ runAll y m = .error e k := by
  simp only [runAll_append, Bind.bind, EStateM.bind]
  cases runAll x n with
  | ok _ m => simp
  | error _ _ => simp

/-- Outcomes of the same step with the same names: the same names again, or the same reason for a rejection. -/
inductive SameOutcome :
    EStateM.Result ResolveError Names Unit → EStateM.Result ResolveError Names Unit → Prop where
  | ok {n n' : Names} (h : n.Same n') : SameOutcome (.ok () n) (.ok () n')
  | error (e : ResolveError) (n n' : Names) : SameOutcome (.error e n) (.error e n')

/-- The steps `y`, begun with the names `n'`, retrace the steps `x`, begun with the names `n`. If these are
    accepted, then so are those, and the names at the end are related by `R`; the table `t'` has the distances of
    all references of `y` if `t` has those of all references of `x`, and `t'` has them for linked ids, too. If
    `y` retraces the whole of `x`, then it is also rejected for the same reason, and has all references that `x`
    has. -/
structure Retraces (whole : Prop) (I : NodeId → NodeId → Prop) (t t' : NodeId → Option Nat)
    (R : Names → Names → Prop) (x y : List Step) (n n' : Names) : Prop where
  ok : ∀ m, runAll x n = .ok () m → ∃ m', runAll y n' = .ok () m' ∧ R m m'
  measured : ∀ m, runAll x n = .ok () m → (∀ i ∈ idsOfAll x, ∀ j, I i j → t' j = t i) →
    MeasuredAll t x n → MeasuredAll t' y n'
  error : whole → ∀ e k, runAll x n = .error e k → ∃ k', runAll y n' = .error e k'
  ids : whole → ∀ m, runAll x n = .ok () m → ∀ id ∈ idsOfAll x, id ∈ idsOfAll y

namespace Retraces

variable {whole : Prop} {I : NodeId → NodeId → Prop} {t t' : NodeId → Option Nat}
  {R : Names → Names → Prop} {x y x' y' : List Step} {n n' : Names}

theorem nil (h : n.Same n') : Retraces whole I t t' Names.Same [] [] n n' where
  ok m hm := by
    cases runAll_nil_eq_ok.1 hm
    exact ⟨n', runAll_nil_eq_ok.2 rfl, h⟩
  measured _ _ _ _ := trivial
  error _ _ _ hk := by cases hk
  ids _ _ _ _ hid := hid

/-- Steps retrace others also if nothing is known of the names at the end. -/
theorem forget (h : Retraces whole I t t' R x y n n') :
    Retraces whole I t t' (fun _ _ => True) x y n n' where
  ok m hm := by
    obtain ⟨m', hm', _⟩ := h.ok m hm
    exact ⟨m', hm', trivial⟩
  measured := h.measured
  error := h.error
  ids := h.ids

/-- Steps one after the other, on both sides. -/
theorem append (h : Retraces whole I t t' Names.Same x y n n')
    (h' : ∀ m m', runAll x n = .ok () m → m.Same m' → Retraces whole I t t' R x' y' m m') :
    Retraces whole I t t' R (x ++ x') (y ++ y') n n' where
  ok m hm := by
    obtain ⟨k, hk, hrest⟩ := runAll_append_eq_ok.1 hm
    obtain ⟨k', hk', hsame⟩ := h.ok k hk
    obtain ⟨m', hm', hR⟩ := (h' k k' hk hsame).ok m hrest
    exact ⟨m', runAll_append_eq_ok.2 ⟨k', hk', hm'⟩, hR⟩
  measured m hm hids hmeasured := by
    obtain ⟨k, hk, hrest⟩ := runAll_append_eq_ok.1 hm
    obtain ⟨k', hk', hsame⟩ := h.ok k hk
    rw [idsOfAll_append, List.forall_mem_append] at hids
    rw [measuredAll_append] at hmeasured ⊢
    refine ⟨h.measured k hk hids.1 hmeasured.1, fun m' hm' => ?_⟩
    rw [hk'] at hm'
    cases hm'
    exact (h' k k' hk hsame).measured m hrest hids.2 (hmeasured.2 k hk)
  error hwhole e k hk := by
    rcases runAll_append_eq_error.1 hk with hx | ⟨m, hm, hx'⟩
    · obtain ⟨k', hk'⟩ := h.error hwhole e k hx
      exact ⟨k', runAll_append_eq_error.2 (.inl hk')⟩
    · obtain ⟨m', hm', hsame⟩ := h.ok m hm
      obtain ⟨k', hk'⟩ := (h' m m' hm hsame).error hwhole e k hx'
      exact ⟨k', runAll_append_eq_error.2 (.inr ⟨m', hm', hk'⟩)⟩
  ids hwhole m hm := by
    obtain ⟨k, hk, hrest⟩ := runAll_append_eq_ok.1 hm
    obtain ⟨k', _, hsame⟩ := h.ok k hk
    intro id hid
    rw [idsOfAll_append, List.mem_append] at hid ⊢
    exact hid.imp (h.ids hwhole k hk id) ((h' k k' hk hsame).ids hwhole m hrest id)

/-- What comes after can be left out, but for what is known of rejections. -/
theorem cut (h : Retraces False I t t' R x y n n') (z : List Step) :
    Retraces False I t t' (fun _ _ => True) (x ++ z) y n n' where
  ok m hm := by
    obtain ⟨k, hk, _⟩ := runAll_append_eq_ok.1 hm
    obtain ⟨k', hk', _⟩ := h.ok k hk
    exact ⟨k', hk', trivial⟩
  measured m hm hids hmeasured := by
    obtain ⟨k, hk, _⟩ := runAll_append_eq_ok.1 hm
    rw [idsOfAll_append, List.forall_mem_append] at hids
    exact h.measured k hk hids.1 (measuredAll_append.1 hmeasured).1
  error := nofun
  ids := nofun

/-- A region, when the inside of the one retraces that of the other. -/
theorem within {region region' : Region} (same : n.Same n')
    (h : Retraces whole I t t' (fun _ _ => True) x y (n.enter region) (n'.enter region')) :
    Retraces whole I t t' Names.Same [.within region x] [.within region' y] n n' where
  ok m hm := by
    rw [runAll_singleton] at hm
    obtain ⟨k, hk, _⟩ := run_within_eq_ok.1 hm
    obtain ⟨k', hk', _⟩ := h.ok k hk
    have hm' : (Step.within region' y).run n' = .ok () (n'.leave k' region') :=
      run_within_eq_ok.2 ⟨k', hk', rfl⟩
    refine ⟨_, by rwa [runAll_singleton], ?_⟩
    exact ((same_of_run_within hm).symm.trans same).trans (same_of_run_within hm')
  measured m hm hids hmeasured := by
    rw [runAll_singleton] at hm
    obtain ⟨k, hk, _⟩ := run_within_eq_ok.1 hm
    rw [idsOfAll_cons, ids_within, List.forall_mem_append] at hids
    rw [measuredAll_singleton] at hmeasured ⊢
    exact h.measured k hk hids.1 hmeasured
  error hwhole e k hk := by
    rw [runAll_singleton, run_within] at hk
    simp only [runAll_singleton, run_within]
    cases hx : runAll x (n.enter region) with
    | ok _ m =>
        rw [hx] at hk
        cases hk
    | error _ m =>
        rw [hx] at hk
        cases hk
        obtain ⟨k', hk'⟩ := h.error hwhole e m hx
        exact ⟨_, by rw [hk']⟩
  ids hwhole m hm := by
    rw [runAll_singleton] at hm
    obtain ⟨k, hk, _⟩ := run_within_eq_ok.1 hm
    intro id hid
    rw [idsOfAll_cons, ids_within, List.mem_append] at hid ⊢
    exact hid.imp_left (h.ids hwhole k hk id)

/-- A step that has the same outcome. -/
theorem of_run {s s' : Step} (h : SameOutcome (s.run n) (s'.run n'))
    (hmeasured : (∀ i ∈ idsOfAll [s], ∀ j, I i j → t' j = t i) → s.Measured t n →
      s'.Measured t' n')
    (hids : idsOfAll [s'] = idsOfAll [s]) : Retraces whole I t t' Names.Same [s] [s'] n n' where
  ok m hm := by
    rw [runAll_singleton] at hm ⊢
    rw [hm] at h
    revert h
    generalize s'.run n' = r'
    intro h
    cases h with
    | ok h => exact ⟨_, rfl, h⟩
  measured _ _ hids hstep := by
    rw [measuredAll_singleton] at hstep ⊢
    exact hmeasured hids hstep
  error _ e k hk := by
    rw [runAll_singleton] at hk ⊢
    rw [hk] at h
    revert h
    generalize s'.run n' = r'
    intro h
    cases h with
    | error e k k' => exact ⟨k', rfl⟩
  ids _ _ _ id hid := hids ▸ hid

/-! ### The same step on both sides -/

theorem declare (same : n.Same n') (name : String) :
    Retraces whole I t t' Names.Same [.declare name] [.declare name] n n' := by
  refine .of_run ?_ (fun _ _ => trivial) rfl
  rw [run, Resolver.declare, Resolver.get_bind, Resolver.get_bind, same.innermost]
  cases n.innermost.contains name with
  | true => exact .error _ _ _
  | false => exact .ok (same.mark name false)

theorem define (same : n.Same n') (name : String) :
    Retraces whole I t t' Names.Same [.define name] [.define name] n n' :=
  .of_run (.ok (same.mark name true)) (fun _ _ => trivial) rfl

theorem refuse (same : n.Same n') (name : String) :
    Retraces whole I t t' Names.Same [.refuse name] [.refuse name] n n' := by
  refine .of_run ?_ (fun _ _ => trivial) rfl
  rw [run, Resolver.refuseSelfReference, Resolver.get_bind, Resolver.get_bind, same.innermost]
  by_cases hready : n.innermost[name]? = some false
  · simp only [hready, if_true]
    exact .error _ _ _
  · simp only [hready, if_false]
    exact .ok same

theorem locate (same : n.Same n') (name : String) {id : NodeId} (linked : I id id) :
    Retraces whole I t t' Names.Same [.locate name id] [.locate name id] n n' := by
  refine .of_run ?_ ?_ rfl
  · rw [run_locate, run_locate, same.distance?]
    cases n.distance? name with
    | none => exact .ok same
    | some d => exact .ok ⟨same.locals, same.topLevel, same.enclosing⟩
  · intro hid hmeasured
    have hthere : t id = n.distance? name := hmeasured
    change t' id = n'.distance? name
    rw [hid id List.mem_cons_self id linked, hthere, same.distance?]

theorem exit (same : n.Same n') : Retraces whole I t t' Names.Same [.exit] [.exit] n n' := by
  refine .of_run ?_ (fun _ _ => trivial) rfl
  rw [run, Resolver.get_bind, Resolver.get_bind, same.enclosing]
  cases n.enclosing with
  | none => exact .error _ _ _
  | some kind => exact .ok same

theorem introduce (same : n.Same n') (name : String) :
    Retraces whole I t t' Names.Same [.declare name, .define name] [.declare name, .define name] n n' :=
  append (x := [.declare name]) (y := [.declare name]) (declare same name)
    fun _ _ _ same => define same name

theorem params (same : n.Same n') (ps : List Param) :
    Retraces whole I t t' Names.Same (Param.steps ps) (Param.steps ps) n n' := by
  induction ps generalizing n n' with
  | nil => exact nil same
  | cons p rest ih => exact append (introduce same p.name) fun _ _ _ same => ih same

/-! ### Regions -/

theorem block (same : n.Same n') {body body' : List Stmt}
    (h : ∀ m m' : Names, m.Ready → m.Same m' → Retraces whole I t t' (fun _ _ => True) x y m m') :
    Retraces whole I t t' Names.Same [.within (.block body) x] [.within (.block body') y] n n' :=
  within same (h _ _ (n.ready_enter (.block body)) same.push)

theorem methods (same : n.Same n') {fs fs' : List Function}
    (h : ∀ m m' : Names, m.Same m' → Retraces whole I t t' Names.Same x y m m') :
    Retraces whole I t t' Names.Same [.within (.methods fs) x] [.within (.methods fs') y] n n' :=
  within same (h _ _ (same.push.mark "this" true)).forget

/-- A function: its parameters, and then its body. -/
theorem function (same : n.Same n') {kind : FunctionKind} {f f' : Function} (hparams : f'.params = f.params)
    (h : ∀ m m' : Names, m.Ready → m.Same m' → Retraces whole I t t' (fun _ _ => True)
      (Stmt.stepsOfAll f.body) (Stmt.stepsOfAll f'.body) m m') :
    Retraces whole I t t' Names.Same (f.steps kind) (f'.steps kind) n n' := by
  rw [Function.steps_eq, Function.steps_eq, hparams]
  have henter : (n.enter (.function kind f)).Same (n'.enter (.function kind f')) :=
    ⟨same.push.locals, same.push.topLevel, rfl⟩
  refine within same ((params henter f.params).append fun m m' hm same => h m m' ?_ same)
  intro x
  rw [runAll_innermost hm]
  exact Param.writeAll_ready f.params (n.ready_enter (.function kind f)) x

end Retraces

end Step

/-! ### Whole programs -/

/-- A program that retraces an accepted one is accepted, and its distances are those of the table. -/
theorem exists_resolve_of_retraces {p q : Program} {a : Annotations} (accepted : resolve p = .ok a)
    (distinct : (Program.ids p).Nodup) {whole : Prop} {I : NodeId → NodeId → Prop}
    {t : NodeId → Option Nat} {R : Names → Names → Prop}
    (linked : ∀ i ∈ Program.ids p, ∀ j, I i j → t j = a.get? i)
    (h : Step.Retraces whole I a.get? t R (Program.steps p) (Program.steps q) .initial .initial) :
    ∃ b, resolve q = .ok b ∧ ∀ id ∈ Program.ids q, b.get? id = t id := by
  obtain ⟨last, hlast, rfl⟩ := (resolve_eq_ok_iff p a).1 accepted
  obtain ⟨last', hlast', _⟩ := h.ok last hlast
  have hmeasured := h.measured last hlast linked (Step.measuredAll_of_accepted hlast distinct)
  exact ⟨last'.found, (resolve_eq_ok_iff q _).2 ⟨last', hlast', rfl⟩,
    fun id hid => Step.get?_of_measured hlast' hmeasured hid⟩

end Kiln
