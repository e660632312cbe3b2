/-
Module: Kiln.Proofs.Renaming.Programs
Purpose: Renaming a local variable of a program changes nothing that can be seen from outside. The analysis finds
  the same distances. On a new interpreter the renamed program prints the same, shows the same values, and
  fails where the program itself fails, for the same cause; only where a variable is missing, the cause has
  the name by which the renamed program writes the reference.
Main exports: Program.nameOf?, Halt.inWordsOf, OutcomeAlike, Evaluate.program_alike,
  Interpreter.nameOf?_of_missed, Interpreter.run_rename, Program.renameVariable_alike
-/
import Mathlib.Logic.Equiv.Basic
import Kiln.Proofs.Renaming.Runs
import Kiln.Proofs.Renaming.Scopes
import Kiln.Proofs.Session.History

namespace Kiln

open Evaluate

/-! ### What a run shows -/

/-- The name by which a program writes the reference with an id. -/
def Program.nameOf? (p : Program) (id : NodeId) : Option String :=
  ((Step.referencesOfAll (Program.steps p)).find? fun r => r.id == id).map (·.name)

/-- Why a run stops, as a program would say it: a missing variable has the name by which the program writes
    the reference. -/
def Halt.inWordsOf (p : Program) : Halt → Halt
  | .failed (.undefinedVariable name id) =>
    .failed (.undefinedVariable ((p.nameOf? id).getD name) id)
  | halt => halt

/-- What two runs come to is shown in the same way. If they fail, they do so on the same line and for the same
    cause, which the second puts in the words of its own program `q`. -/
def OutcomeAlike (q : Program) : Except (Located Halt) (List Value) →
    Except (Located Halt) (List Value) → Prop
  | .ok values, .ok values' => values'.map Value.display = values.map Value.display ∧
    ∀ palette, values'.map (Value.echo palette) = values.map (Value.echo palette)
  | .error e, .error e' => e' = ⟨e.line, e.value.inWordsOf q⟩
  | _, _ => False

/-- If one run fails, then so does the run that is alike. -/
theorem OutcomeAlike.eq_error {q : Program} {r r' : Except (Located Halt) (List Value)}
    (h : OutcomeAlike q r r') {e : Located Halt} (failed : r = .error e) :
    r' = .error ⟨e.line, e.value.inWordsOf q⟩ := by
  subst failed
  cases r' with
  | ok values => exact h.elim
  | error e' => exact congrArg Except.error h

/-! ### Whole programs -/

/-- Outcomes of a program and of the renamed program that began in worlds with the layout `γ`. -/
inductive ProgramAlike (ρ : String → String) (a : Annotations) (globals : ScopeId) (γ : Layout) :
    EStateM.Result (Located Halt) World (List Value) →
      EStateM.Result (Located Halt) World (List Value) → Prop where
  | values {δ : Layout} {values values' : List Value} {w w' : World} (grows : γ <+: δ)
      (world : WorldAlike ρ a globals δ w w') (h : ValuesAlike ρ a δ values values') :
      ProgramAlike ρ a globals γ (.ok values w) (.ok values' w')
  | halt (line : Nat) {e e' : Halt} {w w' : World} (h : HaltAlike e e') (sink_eq : w'.sink = w.sink) :
      ProgramAlike ρ a globals γ (.error ⟨line, e⟩ w) (.error ⟨line, e'⟩ w')

/-- A program runs as the renamed program does. -/
theorem Evaluate.program_alike {ρ : String → String} (exchange : Exchange ρ) {a : Annotations}
    {globals : ScopeId} (fuel : Nat) {γ : Layout} {w w' : World} (p : Program)
    (world : WorldAlike ρ a globals γ w w') (site : Site) (top : site.distance = none) :
    ProgramAlike ρ a globals γ (program (.lexical globals a) fuel globals p w)
      (program (.lexical globals a) fuel globals (Program.rename ρ a site p) w') := by
  induction p generalizing γ w w' site with
  | nil => exact .values (List.prefix_refl γ) world .nil
  | cons node rest ih =>
      have htop : ∀ number, (site.child number).distance = none := by
        intro number
        rw [Site.distance_child, top]
      have hscope : γ.At globals (site.child 0).distance := by
        rw [htop]
        exact world.globals_at
      have hnode := (runs_alike exchange a globals fuel).stmt node.value (site.child 0) world hscope
        (by rw [htop]; exact nofun)
      rw [Program.rename, program_cons, program_cons]
      revert hnode
      generalize stmt (.lexical globals a) fuel node.value globals w = r
      generalize stmt (.lexical globals a) fuel (node.value.rename ρ a (site.child 0)) globals w' = r'
      intro hnode
      cases hnode with
      | halt h sink_eq => exact .halt node.line h sink_eq
      | @value δ c c' u u' grows world hc =>
          have hrest := ih world (site.child 1) (htop 1)
          simp only
          revert hrest
          generalize program (.lexical globals a) fuel globals rest u = r
          generalize program (.lexical globals a) fuel globals
            (Program.rename ρ a (site.child 1) rest) u' = r'
          intro hrest
          cases hrest with
          | halt line h sink_eq => exact .halt line h sink_eq
          | values grows' world hvalues =>
              exact .values (grows.trans grows') world (.cons (hc.value.mono grows') hvalues)

/-- A new interpreter has two scopes, both outside of any scope of the renaming. -/
theorem Interpreter.worldAlike_new (ρ : String → String) (a : Annotations) (sink : Sink) :
    WorldAlike ρ a (Interpreter.new sink).globals [none, none] (Interpreter.new sink).world
      (Interpreter.new sink).world where
  store := {
    size_eq := rfl
    size_eq' := rfl
    parent?_eq := fun _ => rfl
    nested := by
      intro scope outer d houter hscope
      rw [Interpreter.parent?_new] at houter
      split at houter
      · next hglobals =>
        subst hglobals
        cases houter
        cases hscope
        exact ⟨none, rfl, .away⟩
      · cases houter
    cells := by
      intro scope d hscope name
      have hd : d = none := by
        have hmem := List.mem_of_getElem? hscope
        simpa using hmem
      subst hd
      change Option.Rel _ _ ((Interpreter.new sink).world.store.cell? scope name)
      cases hcell : (Interpreter.new sink).world.store.cell? scope name with
      | none => exact .none
      | some v =>
          obtain ⟨_, _, ⟨identity, rfl⟩ | rfl⟩ := Interpreter.cell?_new hcell
          · exact .some (.builtin .print identity)
          · exact .some (.text Store.version)
    objects_size_eq := rfl
    fields := by
      intro object name
      simp [Interpreter.new, Store.newBuiltins, Store.newScope, Store.newIdentity, Store.empty, Store.put,
        Store.fields]
    identities_eq := rfl }
  globals_at := rfl
  sink_eq := rfl

/-! ### Missing variables -/

namespace Step

/-- References that are met are references of the program. -/
theorem Meets.mem_references {all steps : List Step} {names : Names} {regions : List Region}
    (h : Meets all steps names regions) {r : Reference} (hr : r ∈ referencesOfAll steps) :
    ∃ depth, ⟨r.name, r.id, depth⟩ ∈ referencesOfAll all := by
  induction h generalizing r with
  | start => exact ⟨r.depth, hr⟩
  | first _ ih =>
      apply ih
      rw [referencesOfAll_append]
      exact List.mem_append_left _ hr
  | next _ _ ih =>
      apply ih
      rw [referencesOfAll_append]
      exact List.mem_append_right _ hr
  | inside _ ih =>
      apply ih (r := r.deeper)
      simp only [referencesOfAll, references, List.append_nil]
      exact List.mem_map_of_mem hr

end Step

/-- If no two references share an id, then a reference is the only one with its id. -/
theorem Program.nameOf?_eq_some {p : Program} (distinct : (Program.ids p).Nodup) {r : Reference}
    (hr : r ∈ Step.referencesOfAll (Program.steps p)) : p.nameOf? r.id = some r.name := by
  unfold Program.ids Step.idsOfAll at distinct
  unfold Program.nameOf?
  generalize Step.referencesOfAll (Program.steps p) = rs at distinct hr ⊢
  induction rs with
  | nil => cases hr
  | cons first rest ih =>
      rw [List.map_cons, List.nodup_cons] at distinct
      rcases List.mem_cons.1 hr with rfl | hr
      · simp
      · have hne : first.id ≠ r.id := fun h => distinct.1 (h ▸ List.mem_map_of_mem hr)
        rw [List.find?_cons_of_neg (by simpa using hne)]
        exact ih distinct.2 hr

/-- A run that misses a variable names it as the program writes the reference. -/
theorem Interpreter.nameOf?_of_missed {q : Program} {a : Annotations} (accepted : resolve q = .ok a)
    (distinct : (Program.ids q).Nodup) {sink : Sink} {fuel line : Nat} {name : String} {id : NodeId}
    (failed : ((Interpreter.new sink).run fuel q a).1
      = .error ⟨line, .failed (.undefinedVariable name id)⟩) : q.nameOf? id = some name := by
  have hplaced := Setting.placed_session (fun h : False => h.elim)
    (List.mem_cons_self : q ∈ [q]) accepted
  have hsafe := program_safe fuel ((Interpreter.new sink).learn a).honest_finder
    (Setting.sound_new [q] False sink) hplaced
  obtain ⟨w, hfailed⟩ := exists_world_of_run_eq_error failed
  rw [History.fresh.globals_eq] at hfailed
  rw [Setting.session, hfailed] at hsafe
  obtain ⟨s, scope, _, ⟨b, names, regions, ⟨p, hp, _, hmeets⟩, _⟩, _⟩ := hsafe.2 name id rfl
  cases List.mem_singleton.1 hp
  obtain ⟨depth, hr⟩ := hmeets.mem_references (r := ⟨name, id, 0⟩) List.mem_cons_self
  exact Program.nameOf?_eq_some distinct hr

/-! ### One variable -/

section Variable

variable {x y : String}

theorem exchange_swap (hx : x ≠ "this") (hy : y ≠ "this") : Exchange (Equiv.swap x y) where
  involutive name := by rw [Equiv.swap_apply_eq_iff]
  this_eq := Equiv.swap_apply_of_ne_of_ne hx.symm hy.symm

/-- Among names that are not `y`, putting `y` for `x` is the same as exchanging the two. -/
theorem swap_eq_ite {name : String} (h : name ≠ y) :
    Equiv.swap x y name = if name = x then y else name := by
  split
  · next hname => rw [hname, Equiv.swap_apply_left]
  · next hname => exact Equiv.swap_apply_of_ne_of_ne hname h

theorem fresh_swap : Fresh (Equiv.swap x y) (· ≠ y) := by
  intro name hname hnew
  rw [swap_eq_ite hname] at hnew ⊢
  split
  · next h => exact absurd (if_pos h) hnew
  · rfl

theorem Program.rename_swap {p : Program} {a : Annotations} {path : List Nat} (hy : y ∉ Program.names p)
    (unnamed : y ≠ "anonymous") :
    Program.rename (Equiv.swap x y) a (.outside path) p = p.renameVariable a path x y := by
  apply Program.rename_congr
  · exact swap_eq_ite unnamed.symm
  · intro name hname
    apply swap_eq_ite
    rintro rfl
    exact hy hname

/-- The analysis follows the program with names other than `y`. -/
theorem followed_swap {p : Program} {a : Annotations} (distinct : (Program.ids p).Nodup)
    (accepted : resolve p = .ok a) (hx : x ≠ "this") (hy : y ≠ "this") (unnamed : y ≠ "anonymous") :
    Step.Followed (Equiv.swap x y) (· ≠ y) a (Program.steps p) where
  exchange := exchange_swap hx hy
  fresh := fresh_swap
  this_used := hy.symm
  unnamed_used := unnamed.symm
  distinct := distinct
  accepted := (resolve_eq_ok_iff p a).1 accepted

end Variable

/-- References that are alike are found under the same ids. -/
theorem rel_find? {ρ : String → String} {used : String → Prop} {rs rs' : List Reference}
    (h : List.Forall₂ (Step.ReferenceAlike ρ used) rs rs') (id : NodeId) :
    Option.Rel (Step.ReferenceAlike ρ used) (rs.find? fun r => r.id == id)
      (rs'.find? fun r => r.id == id) := by
  induction h with
  | nil => exact .none
  | cons hr _ ih =>
      rw [List.find?_cons, List.find?_cons, hr.id_eq]
      split
      · exact .some hr
      · exact ih

/-- The renamed program writes a reference by its old name or by its new one. -/
theorem Step.Tracks.nameOf? {ρ : String → String} {used : String → Prop} {all : List Step}
    {d : Option Nat} {p q : Program} (h : Tracks ρ used all d (Program.steps p) (Program.steps q))
    {id : NodeId} {name : String} (hname : p.nameOf? id = some name) :
    used name ∧ (q.nameOf? id = some name ∨ q.nameOf? id = some (ρ name)) := by
  have hfound := rel_find? h.references id
  unfold Program.nameOf? at hname ⊢
  generalize (referencesOfAll (Program.steps p)).find? (fun r => r.id == id) = r at hname hfound
  generalize (referencesOfAll (Program.steps q)).find? (fun r => r.id == id) = r' at hfound ⊢
  cases hfound with
  | none => cases hname
  | @some r r' h =>
      cases hname
      simp only [Option.map_some, Option.some.injEq]
      exact ⟨h.used, h.name_eq⟩

/-- A cause that is alike is the same in the words of the renamed program. -/
theorem HaltAlike.eq_inWordsOf {q : Program} {e e' : Halt} (h : HaltAlike e e')
    (hname : ∀ name id, e' = .failed (.undefinedVariable name id) → q.nameOf? id = some name) :
    e' = e.inWordsOf q := by
  cases h with
  | missed name name' id => rw [Halt.inWordsOf, hname name' id rfl, Option.getD_some]
  | same =>
      unfold Halt.inWordsOf
      split
      · next name id => rw [hname name id rfl, Option.getD_some]
      · rfl

/-- What runs on a new interpreter show, where the second is that of the renamed program. -/
theorem Interpreter.run_rename {ρ : String → String} (exchange : Exchange ρ) {p q : Program}
    {a : Annotations} {path : List Nat} (hq : Program.rename ρ a (.outside path) p = q)
    (accepted : resolve q = .ok a) (distinct : (Program.ids q).Nodup) (sink : Sink) (fuel : Nat) :
    ((Interpreter.new sink).run fuel q a).2.world.sink
        = ((Interpreter.new sink).run fuel p a).2.world.sink ∧
      OutcomeAlike q ((Interpreter.new sink).run fuel p a).1
        ((Interpreter.new sink).run fuel q a).1 := by
  have halike := program_alike exchange fuel p (worldAlike_new ρ a sink) (.outside path) rfl
  rw [hq, ← finder_new] at halike
  generalize hr : program ((Interpreter.new sink).learn a).finder fuel (Interpreter.new sink).globals p
    (Interpreter.new sink).world = r at halike
  generalize hr' : program ((Interpreter.new sink).learn a).finder fuel (Interpreter.new sink).globals q
    (Interpreter.new sink).world = r' at halike
  cases halike with
  | values _ world hvalues =>
      rw [run_of_program_ok hr, run_of_program_ok hr']
      exact ⟨world.sink_eq, hvalues.map_eq fun _ _ h => h.display_eq,
        fun palette => hvalues.map_eq fun _ _ h => h.echo_eq palette⟩
  | @halt line e e' u u' h sink_eq =>
      have hname : ∀ name id, e' = .failed (.undefinedVariable name id) →
          q.nameOf? id = some name := by
        rintro name id rfl
        have hfailed := congrArg Prod.fst (run_of_program_error hr')
        exact nameOf?_of_missed accepted distinct hfailed
      rw [run_of_program_error hr, run_of_program_error hr']
      exact ⟨sink_eq, congrArg (Located.mk line) (h.eq_inWordsOf hname)⟩

/-- Renaming the variable `x` of a scope inside the top level to a new name `y` changes nothing. The scope has
    `y` where it had `x`, the analysis finds the same distances, and no reference is written in another way
    but some `x` as `y`. Runs on a new interpreter print the same and show the same. -/
theorem Program.renameVariable_alike {p : Program} {a : Annotations}
    (distinct : (Program.ids p).Nodup) (accepted : resolve p = .ok a) {path : List Nat} {region : Region}
    (scope : p.scopeAt? path = some region) {x y : String} (hvariable : x ∈ region.variableNames)
    (hx : x ≠ "this") (hy : y ∉ Program.names p) (this_ne : y ≠ "this") (unnamed : y ≠ "anonymous") :
    (∃ region', (p.renameVariable a path x y).scopeAt? path = some region' ∧
      region'.variableNames = region.variableNames.map fun name => if name = x then y else name) ∧
    resolve (p.renameVariable a path x y) = .ok a ∧
    (∀ id name, p.nameOf? id = some name →
      (p.renameVariable a path x y).nameOf? id = some name ∨
        name = x ∧ (p.renameVariable a path x y).nameOf? id = some y) ∧
    ∀ (sink : Sink) (fuel : Nat),
      ((Interpreter.new sink).run fuel (p.renameVariable a path x y) a).2.world.sink
          = ((Interpreter.new sink).run fuel p a).2.world.sink ∧
        OutcomeAlike (p.renameVariable a path x y) ((Interpreter.new sink).run fuel p a).1
          ((Interpreter.new sink).run fuel (p.renameVariable a path x y) a).1 := by
  have followed := followed_swap distinct accepted hx this_ne unnamed
  have hnames : ∀ name ∈ Program.names p, name ≠ y := fun name hname heq => hy (heq ▸ hname)
  -- Exchanging the two names is undone when it is done again, and `p` does not tell it from the renaming.
  have hq : Program.rename (Equiv.swap x y) a (.outside path) p = p.renameVariable a path x y :=
    Program.rename_swap hy unnamed
  have hresolve := resolve_rename followed hnames path
  have htracks := Program.tracks followed hnames (.outside path) rfl
  rw [hq] at hresolve htracks
  refine ⟨Program.variableNames_renameVariable accepted scope hvariable y, hresolve, ?_, ?_⟩
  · intro id name hname
    obtain ⟨hused, hsame | hnew⟩ := htracks.nameOf? hname
    · exact .inl hsame
    · rw [swap_eq_ite hused] at hnew
      split at hnew
      · next heq => exact .inr ⟨heq, hnew⟩
      · exact .inl hnew
  · intro sink fuel
    apply Interpreter.run_rename (exchange_swap hx this_ne) hq hresolve
    unfold Program.ids
    rw [htracks.ids_eq]
    exact distinct

/-- Two blocks that shadow the variable `x` of the top level. In the first, `x` is read before the block has a
    variable of that name, then a function with a parameter `x` is stored in it. In the second, the first
    value of the variable is read from the variable itself. -/
def shadowing (first second : String) : Program :=
  [⟨0, .declare "x" (.number 1)⟩,
   ⟨1, .block
      [.expr (.var "x" ⟨0⟩),
       .declare first (.lambda ⟨none, [⟨"x", none⟩], none, [.ret (some (.var "x" ⟨1⟩))]⟩),
       .assign ⟨first, ⟨2⟩⟩ (.call (.var first ⟨3⟩) [.number 7]),
       .expr (.call (.var "print" ⟨4⟩) [.var first ⟨5⟩])]⟩,
   ⟨2, .block [.declare second (.call (.lambda ⟨none, [], none, [.ret (some (.var second ⟨6⟩))]⟩) [])]⟩]

/-- The distances of the references in the two blocks. -/
def shadowingDistances : Annotations :=
  ((((Annotations.empty.record ⟨1⟩ 0).record ⟨3⟩ 0).record ⟨2⟩ 0).record ⟨5⟩ 0).record ⟨6⟩ 1

/-- The variables of the two blocks are renamed apart from each other and from the one of the top level. The
    second block fails, and the cause has the new name only if the variable of that block has it. -/
theorem Program.renameVariable_alike_of_shadowing :
    (shadowing "x" "x").renameVariable shadowingDistances [1, 0] "x" "y" = shadowing "y" "x" ∧
    (shadowing "x" "x").renameVariable shadowingDistances [1, 1, 0] "x" "y" = shadowing "x" "y" ∧
    resolve (shadowing "y" "x") = .ok shadowingDistances ∧
    resolve (shadowing "x" "y") = .ok shadowingDistances ∧
    ((Interpreter.new default).run 12 (shadowing "y" "x") shadowingDistances).1
      = .error ⟨2, .failed (.undefinedVariable "x" ⟨6⟩)⟩ ∧
    ((Interpreter.new default).run 12 (shadowing "x" "y") shadowingDistances).1
      = .error ⟨2, .failed (.undefinedVariable "y" ⟨6⟩)⟩ := by
  have distinct : (Program.ids (shadowing "x" "x")).Nodup := by decide
  have accepted : resolve (shadowing "x" "x") = .ok shadowingDistances := rfl
  have hy : "y" ∉ Program.names (shadowing "x" "x") := by decide
  have hfailed : ((Interpreter.new default).run 12 (shadowing "x" "x") shadowingDistances).1
      = .error ⟨2, .failed (.undefinedVariable "x" ⟨6⟩)⟩ := rfl
  have hfirst : (shadowing "x" "x").renameVariable shadowingDistances [1, 0] "x" "y"
      = shadowing "y" "x" := rfl
  have hsecond : (shadowing "x" "x").renameVariable shadowingDistances [1, 1, 0] "x" "y"
      = shadowing "x" "y" := rfl
  have halike := Program.renameVariable_alike distinct accepted
    (rfl : (shadowing "x" "x").scopeAt? [1, 0] = some _) List.mem_cons_self (by decide) hy (by decide)
    (by decide)
  have halike' := Program.renameVariable_alike distinct accepted
    (rfl : (shadowing "x" "x").scopeAt? [1, 1, 0] = some _) List.mem_cons_self (by decide) hy
    (by decide) (by decide)
  rw [hfirst] at halike
  rw [hsecond] at halike'
  obtain ⟨_, hresolve, _, hrun⟩ := halike
  obtain ⟨_, hresolve', _, hrun'⟩ := halike'
  exact ⟨hfirst, hsecond, hresolve, hresolve', (hrun default 12).2.eq_error hfailed,
    (hrun' default 12).2.eq_error hfailed⟩

end Kiln
