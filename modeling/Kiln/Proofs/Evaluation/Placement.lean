/-
Module: Kiln.Proofs.Evaluation.Placement
Purpose: How a running program sits in its source. A part of a program that is executed in some scope was
  met by the scope analysis, and the way outward from that scope leads through the regions in which it was
  met. A store is sound when all functions and classes in it are placed in this way, and when every
  scope holds only names of its own region. Each operation of the evaluator keeps stores sound.
Main exports: Setting, Setting.Known, Supplied, Setting.Placed, Setting.Valid, Setting.Named,
  Setting.Sound, Setting.Sound.put, Setting.Sound.newScope
-/
import Kiln.Proofs.Scoping.Discipline
import Kiln.Proofs.Store.Chains

namespace Kiln

/-- What stays the same while programs run one after the other. -/
structure Setting where
  /-- The programs whose parts are executed. -/
  programs : List Program
  globals : ScopeId
  builtins : ScopeId
  /-- Whether variables are claimed to be there when they are used. -/
  strict : Prop

/-- The names that a scope with this origin can hold. -/
def Origin.names : Origin → List String
  | .outside => []
  | .block body => Stmt.declaredOfAll body
  | .call f => f.paramNames ++ Stmt.declaredOfAll f.body
  | .binding _ => ["this"]

theorem Region.Opens.names_eq {region : Region} {o : Origin} (h : region.Opens o) :
    o.names = region.names := by
  cases h <;> rfl

/-- Variables that references need are there: wherever a reference of `steps` leads to a variable that was
    known before them, the scope to which it leads has that variable. -/
def Supplied (s : Store) (scope : ScopeId) (a : Annotations) (steps : List Step) (names : Names) :
    Prop :=
  ∀ r ∈ Step.referencesOfAll steps, ∀ (k : Nat) (table : NameTable),
    a.get? r.id = some (r.depth + k) → names.locals[k]? = some table → r.name ∈ table →
      ∃ target, s.hop? scope k = some target ∧ s.defines target r.name = true

namespace Supplied

variable {s t : Store} {scope inner : ScopeId} {a : Annotations} {x y : List Step}
  {names later : Names}

theorem mono (grows : s.Grows t) (h : Supplied s scope a x names) : Supplied t scope a x names := by
  intro r hr k table hget htable hname
  obtain ⟨target, hhop, hdefines⟩ := h r hr k table hget htable hname
  exact ⟨target, grows.hop? hhop, grows.defines hdefines⟩

theorem first (h : Supplied s scope a (x ++ y) names) : Supplied s scope a x names := by
  intro r hr
  apply h r
  rw [Step.referencesOfAll_append]
  exact List.mem_append_left _ hr

/-- The names that earlier steps have added must be there, if later steps refer to them. -/
theorem next (h : Supplied s scope a (x ++ y) names) (taken : Step.runAll x names = .ok () later)
    (added : ∀ r ∈ Step.referencesOfAll y, a.get? r.id = some r.depth → r.name ∈ Step.marked x →
      s.defines scope r.name = true) : Supplied s scope a y later := by
  intro r hr k table hget htable hname
  have hr' : r ∈ Step.referencesOfAll (x ++ y) := by
    rw [Step.referencesOfAll_append]
    exact List.mem_append_right _ hr
  rcases Step.runAll_grows x taken with ⟨_, hlater⟩ | ⟨old, new, outer, hnames, hlater, hgrown⟩
  · rw [hlater] at htable
    cases htable
  · rw [hlater] at htable
    cases k with
    | succ k => exact h r hr' (k + 1) table hget (by rw [hnames]; exact htable) hname
    | zero =>
        cases htable
        rcases (hgrown r.name).1 hname with hold | hnew
        · exact h r hr' 0 old hget (by rw [hnames]; rfl) hold
        · exact ⟨scope, rfl, added r hr hget hnew⟩

/-- Inside a region everything lies one scope further out. -/
theorem inside {region : Region} (h : Supplied s scope a [.within region x] names)
    (grows : s.Grows t) (around : t.parent? inner = some scope)
    (entered : ∀ functions, region = .methods functions → t.defines inner "this" = true) :
    Supplied t inner a x (names.enter region) := by
  intro r hr k table hget htable hname
  obtain ⟨start, hstart, hdescribes⟩ := region.describes_enter names
  rw [hstart] at htable
  cases k with
  | succ k =>
      have hdeep : r.deeper ∈ Step.referencesOfAll [.within region x] := by
        simp only [Step.referencesOfAll, Step.references, List.append_nil]
        exact List.mem_map_of_mem hr
      have hsum : r.depth + (k + 1) = r.deeper.depth + k := by
        simp only [Reference.deeper]
        omega
      rw [hsum] at hget
      obtain ⟨target, hhop, hdefines⟩ := h r.deeper hdeep k table hget htable hname
      refine ⟨target, ?_, grows.defines hdefines⟩
      exact Option.bind_eq_some_iff.2 ⟨scope, around, grows.hop? hhop⟩
  | zero =>
      cases htable
      cases region with
      | block body =>
          cases hstart
          simp at hname
      | function kind f =>
          cases hstart
          simp at hname
      | methods functions =>
          have hthis : r.name = "this" := by simpa [Region.names] using hdescribes.1 r.name hname
          exact ⟨inner, rfl, by rw [hthis]; exact entered functions rfl⟩

end Supplied

namespace Setting

variable (Γ : Setting)

/-- One of the programs, which has these distances, contains these steps: they are met with these names
    inside these regions. -/
def Known (a : Annotations) (steps : List Step) (names : Names) (regions : List Region) : Prop :=
  ∃ p ∈ Γ.programs, resolve p = .ok a ∧ Step.Meets (Program.steps p) steps names regions

/-- The steps are those of a part of some program, and `scope` is a scope in which it can be executed. If
    the setting is strict, then the part also has the property `ok`, and the variables that it refers to
    are there. -/
def Placed (s : Store) (scope : ScopeId) (steps : List Step) (ok : Annotations → Prop) : Prop :=
  ∃ a names regions, Γ.Known a steps names regions ∧ s.Chain Γ.globals scope regions ∧
    (Γ.strict → ok a ∧ Supplied s scope a steps names)

variable {Γ}

theorem Known.exists_runAll {a : Annotations} {steps : List Step} {names : Names}
    {regions : List Region} (h : Γ.Known a steps names regions) :
    ∃ later, Step.runAll steps names = .ok () later := by
  obtain ⟨p, _, hp, hmeets⟩ := h
  obtain ⟨last, hlast, _⟩ := (resolve_eq_ok_iff p a).1 hp
  exact hmeets.exists_runAll hlast

namespace Placed

variable {s t : Store} {scope inner : ScopeId} {x y : List Step} {ok ok' : Annotations → Prop}

theorem mono (grows : s.Grows t) (h : Γ.Placed s scope x ok) : Γ.Placed t scope x ok := by
  obtain ⟨a, names, regions, hknown, hchain, hstrict⟩ := h
  refine ⟨a, names, regions, hknown, hchain.mono grows, fun strict => ?_⟩
  exact ⟨(hstrict strict).1, (hstrict strict).2.mono grows⟩

theorem imp (h : Γ.Placed s scope x ok) (hok : ∀ a, ok a → ok' a) : Γ.Placed s scope x ok' := by
  obtain ⟨a, names, regions, hknown, hchain, hstrict⟩ := h
  exact ⟨a, names, regions, hknown, hchain, fun strict => (hstrict strict).imp (hok a) id⟩

theorem first (h : Γ.Placed s scope (x ++ y) ok) (hok : ∀ a, ok a → ok' a) :
    Γ.Placed s scope x ok' := by
  obtain ⟨a, names, regions, ⟨p, hp, hresolve, hmeets⟩, hchain, hstrict⟩ := h
  refine ⟨a, names, regions, ⟨p, hp, hresolve, hmeets.first⟩, hchain, fun strict => ?_⟩
  exact ⟨hok a (hstrict strict).1, (hstrict strict).2.first⟩

theorem next (h : Γ.Placed s scope (x ++ y) ok) (hok : ∀ a, ok a → ok' a)
    (added : Γ.strict → ∀ a, ok a → ∀ r ∈ Step.referencesOfAll y, a.get? r.id = some r.depth →
      r.name ∈ Step.marked x → s.defines scope r.name = true) : Γ.Placed s scope y ok' := by
  obtain ⟨a, names, regions, hknown, hchain, hstrict⟩ := h
  obtain ⟨last, hlast⟩ := hknown.exists_runAll
  obtain ⟨later, hlater, _⟩ := Step.runAll_append_eq_ok.1 hlast
  obtain ⟨p, hp, hresolve, hmeets⟩ := hknown
  refine ⟨a, later, regions, ⟨p, hp, hresolve, hmeets.next hlater⟩, hchain, fun strict => ?_⟩
  obtain ⟨hcare, hsupplied⟩ := hstrict strict
  exact ⟨hok a hcare, hsupplied.next hlater (added strict a hcare)⟩

/-- Steps that add no names change nothing for those after them. -/
theorem next_of_marked_eq_nil (h : Γ.Placed s scope (x ++ y) ok) (hok : ∀ a, ok a → ok' a)
    (hx : Step.marked x = []) : Γ.Placed s scope y ok' := by
  apply h.next hok
  intro _ a _ r _ _ hr
  rw [hx] at hr
  cases hr

/-- Both halves of steps of which the first add no names. -/
theorem halves {ok'' : Annotations → Prop} (h : Γ.Placed s scope (x ++ y) ok)
    (hok : ∀ a, ok a → ok' a ∧ ok'' a) (hx : Step.marked x = []) :
    Γ.Placed s scope x ok' ∧ Γ.Placed s scope y ok'' := by
  constructor
  · exact h.first fun a ha => (hok a ha).1
  · exact h.next_of_marked_eq_nil (fun a ha => (hok a ha).2) hx

/-- The inside of a region is placed in a scope that stands for the region. -/
theorem inside {region : Region} {origin : Origin} (h : Γ.Placed s scope [.within region x] ok)
    (hok : ∀ a, ok a → ok' a) (grows : s.Grows t) (known : t.origin? inner = some origin)
    (around : t.parent? inner = some scope) (opens : region.Opens origin)
    (entered : ∀ functions, region = .methods functions → t.defines inner "this" = true) :
    Γ.Placed t inner x ok' := by
  obtain ⟨a, names, regions, ⟨p, hp, hresolve, hmeets⟩, hchain, hstrict⟩ := h
  refine ⟨a, names.enter region, region :: regions, ⟨p, hp, hresolve, hmeets.inside⟩, ?_,
    fun strict => ?_⟩
  · exact .inside known around opens (hchain.mono grows)
  · obtain ⟨hcare, hsupplied⟩ := hstrict strict
    exact ⟨hok a hcare, hsupplied.inside grows around entered⟩

end Placed

/-! ### Parts of programs -/

section Parts

variable (Γ) (s : Store) (scope : ScopeId)

/-- An expression is placed. -/
abbrev ExprPlaced (e : Expr) : Prop :=
  Γ.Placed s scope e.steps fun a => e.every (Stmt.careful a) = true

/-- Several expressions are placed. -/
abbrev ExprsPlaced (es : List Expr) : Prop :=
  Γ.Placed s scope (Expr.stepsOfAll es) fun a => Expr.everyOfAll (Stmt.careful a) es = true

/-- A statement is placed. -/
abbrev StmtPlaced (st : Stmt) : Prop :=
  Γ.Placed s scope st.steps fun a => st.every (Stmt.careful a) = true

/-- Several statements are placed. -/
abbrev StmtsPlaced (ss : List Stmt) : Prop :=
  Γ.Placed s scope (Stmt.stepsOfAll ss) fun a => Stmt.everyOfAll (Stmt.careful a) ss = true

/-- A function is placed, as one of some kind. -/
def FunctionPlaced (f : Function) : Prop :=
  ∃ kind, Γ.Placed s scope (f.steps kind) fun a => f.every (Stmt.careful a) = true

/-- A method of a class that was declared in `scope` is placed in every scope in which it can be bound,
    now or later. -/
def MethodPlaced (m : Function) : Prop :=
  ∀ (t : Store) (inner : ScopeId), s.Grows t → t.origin? inner = some (.binding m) →
    t.parent? inner = some scope → t.defines inner "this" = true → Γ.FunctionPlaced t inner m

end Parts

/-! ### Sound stores -/

variable (Γ)

/-- Functions are placed in the scope of their closure, and the methods of classes wherever they can be
    bound. -/
def Valid (s : Store) : Value → Prop
  | .closure c => Γ.FunctionPlaced s c.scope c.function
  | .classValue c | .object c _ => c.scope.index < s.scopes.size ∧
    ∀ (name : String) (m : Function), c.methods[name]? = some m → Γ.MethodPlaced s c.scope m
  | _ => True

/-- A name that the scope can hold. -/
def Named (s : Store) (scope : ScopeId) (name : String) : Prop :=
  (scope = Γ.globals ∧ ∃ p ∈ Γ.programs, name ∈ Program.declared p) ∨
    (scope = Γ.builtins ∧ name ∈ builtinNames) ∨
    ∃ origin, s.origin? scope = some origin ∧ name ∈ origin.names

/-- The globals lie inside the scope of what is built in, all ways lead outward, all values are valid, and
    every scope holds names of its own only. -/
structure Sound (s : Store) : Prop where
  globals_outside : s.origin? Γ.globals = some .outside
  globals_parent : s.parent? Γ.globals = some Γ.builtins
  builtins_outside : s.origin? Γ.builtins = some .outside
  builtins_parent : s.parent? Γ.builtins = none
  outward : s.Outward
  cells : ∀ {scope : ScopeId} {name : String} {v : Value}, s.cell? scope name = some v → Γ.Valid s v
  fields : ∀ {object : ObjectId} {name : String} {v : Value},
    (s.fields object)[name]? = some v → Γ.Valid s v
  named : ∀ {scope : ScopeId} {name : String}, s.defines scope name = true → Γ.Named s scope name

variable {Γ} {s t : Store}

theorem FunctionPlaced.mono (grows : s.Grows t) {scope : ScopeId} {f : Function} :
    Γ.FunctionPlaced s scope f → Γ.FunctionPlaced t scope f := by
  rintro ⟨kind, h⟩
  exact ⟨kind, h.mono grows⟩

theorem Valid.mono (grows : s.Grows t) {v : Value} (h : Γ.Valid s v) : Γ.Valid t v := by
  cases v with
  | closure c => exact FunctionPlaced.mono grows h
  | classValue c =>
      exact ⟨grows.lt_size h.1, fun name m hm u inner hu => h.2 name m hm u inner (grows.trans hu)⟩
  | object c id =>
      exact ⟨grows.lt_size h.1, fun name m hm u inner hu => h.2 name m hm u inner (grows.trans hu)⟩
  | void => trivial
  | number n => trivial
  | text t => trivial
  | bool b => trivial
  | builtin f identity => trivial

theorem Named.mono (grows : s.Grows t) {scope : ScopeId} {name : String} (h : Γ.Named s scope name) :
    Γ.Named t scope name := by
  rcases h with hglobals | hbuiltins | ⟨origin, horigin, hname⟩
  · exact .inl hglobals
  · exact .inr (.inl hbuiltins)
  · exact .inr (.inr ⟨origin, grows.origin horigin, hname⟩)

/-- The names that placed steps put into their scope are names that the scope can hold. -/
theorem Placed.named {scope : ScopeId} {steps : List Step} {ok : Annotations → Prop}
    (h : Γ.Placed s scope steps ok) {x : String} (hx : x ∈ Step.marked steps) :
    Γ.Named s scope x := by
  obtain ⟨a, names, regions, ⟨p, hp, _, hmeets⟩, hchain, _⟩ := h
  obtain ⟨_, hmarked, _⟩ := hmeets.describes (Program.fittingAll_steps p)
  have hin := hmarked x hx
  cases hchain with
  | top => exact .inl ⟨rfl, p, hp, (Program.mem_marked_steps_iff x p).1 hin⟩
  | inside known _ opens _ => exact .inr (.inr ⟨_, known, by rw [opens.names_eq]; exact hin⟩)

namespace Sound

/-- What is placed is placed in a scope that exists. -/
theorem lt_size (h : Γ.Sound s) {scope : ScopeId} {steps : List Step} {ok : Annotations → Prop}
    (placed : Γ.Placed s scope steps ok) : scope.index < s.scopes.size := by
  obtain ⟨a, names, regions, _, hchain, _⟩ := placed
  cases hchain with
  | top => exact Store.lt_size_of_origin? h.globals_outside
  | inside known _ _ _ => exact Store.lt_size_of_origin? known

theorem lt_size_of_function (h : Γ.Sound s) {scope : ScopeId} {f : Function}
    (placed : Γ.FunctionPlaced s scope f) : scope.index < s.scopes.size :=
  placed.elim fun _ => h.lt_size

/-- Soundness of a store that has grown, with the same scopes. -/
theorem of_grows (h : Γ.Sound s) (grows : s.Grows t)
    (builtins : t.parent? Γ.builtins = none) (outward : t.Outward)
    (cells : ∀ {scope : ScopeId} {name : String} {v : Value}, t.cell? scope name = some v →
      s.cell? scope name = some v ∨ Γ.Valid t v)
    (fields : ∀ {object : ObjectId} {name : String} {v : Value}, (t.fields object)[name]? = some v →
      (s.fields object)[name]? = some v ∨ Γ.Valid t v)
    (named : ∀ {scope : ScopeId} {name : String}, t.defines scope name = true →
      s.defines scope name = true ∨ Γ.Named s scope name) : Γ.Sound t where
  globals_outside := grows.origin h.globals_outside
  globals_parent := grows.parent h.globals_parent
  builtins_outside := grows.origin h.builtins_outside
  builtins_parent := builtins
  outward := outward
  cells hv := (cells hv).elim (fun hold => (h.cells hold).mono grows) id
  fields hv := (fields hv).elim (fun hold => (h.fields hold).mono grows) id
  named hd := (named hd).elim (fun hold => (h.named hold).mono grows) fun hnew => hnew.mono grows

/-- Declaring or writing a variable with a name that the scope can hold. -/
theorem put (h : Γ.Sound s) {scope : ScopeId} {name : String} {value : Value}
    (named : Γ.Named s scope name) (valid : Γ.Valid (s.put scope name value) value) :
    Γ.Sound (s.put scope name value) := by
  by_cases hlt : scope.index < s.scopes.size
  · apply h.of_grows (.put s scope name value)
    · rw [Store.parent?_put]
      exact h.builtins_parent
    · exact h.outward.put scope name value
    · intro other sought v hv
      rw [Store.cell?_put s hlt] at hv
      split at hv
      · cases hv
        exact .inr valid
      · exact .inl hv
    · intro object sought v hv
      exact .inl hv
    · intro other sought hd
      rcases (Store.defines_put s hlt other name sought value).1 hd with ⟨rfl, rfl⟩ | hold
      · exact .inr named
      · exact .inl hold
  · rw [Store.put_of_size_le s (Nat.le_of_not_lt hlt)]
    exact h

/-- Opening a scope inside one that exists. -/
theorem newScope (h : Γ.Sound s) (origin : Origin) {parent : ScopeId}
    (hlt : parent.index < s.scopes.size) : Γ.Sound (s.newScope origin (some parent)).2 := by
  have hbuiltins := Store.lt_size_of_origin? h.builtins_outside
  apply h.of_grows (.newScope s origin (some parent))
  · rw [Store.parent?_newScope, if_neg]
    · exact h.builtins_parent
    · intro hsame
      rw [hsame] at hbuiltins
      exact Nat.lt_irrefl _ hbuiltins
  · apply h.outward.newScope origin
    rintro outer ⟨⟩
    exact hlt
  · intro other sought v hv
    rw [Store.cell?_newScope] at hv
    exact .inl hv
  · intro object sought v hv
    exact .inl hv
  · intro other sought hd
    rw [Store.defines_newScope] at hd
    exact .inl hd

theorem newIdentity (h : Γ.Sound s) : Γ.Sound s.newIdentity.2 :=
  h.of_grows (.newIdentity s) h.builtins_parent h.outward .inl .inl .inl

theorem newObject (h : Γ.Sound s) : Γ.Sound s.newObject.2 := by
  apply h.of_grows (.newObject s) h.builtins_parent h.outward .inl _ .inl
  intro object sought v hv
  rw [Store.fields_newObject] at hv
  exact .inl hv

/-- Giving a field a value. -/
theorem setField (h : Γ.Sound s) (object : ObjectId) (name : String) {value : Value}
    (valid : Γ.Valid s value) : Γ.Sound (s.setField object name value) := by
  have grows := Store.Grows.setField s object name value
  apply h.of_grows grows h.builtins_parent h.outward .inl _ .inl
  intro other sought v hv
  rcases s.eq_or_eq_of_fields_setField hv with rfl | hold
  · exact .inr (valid.mono grows)
  · exact .inl hold

end Sound

end Setting

end Kiln
