/-
Module: Kiln.Proofs.Renaming.Stores
Purpose: The stores of a program and of the same program with the variables of one scope renamed. During a run
  that scope may be opened many times, each time with variables of its own. A layout tells for every scope
  of the store how far out the renamed one lies. Where it is the scope itself, variables have their new
  names; all else is alike, up to the bodies of functions.
Main exports: Layout, Layout.At, ValueAlike, ClassAlike, ClassAlike.ofFunctions, StoreAlike,
  StoreAlike.find, StoreAlike.put, StoreAlike.newScope
-/
import Kiln.Eval.Basic
import Kiln.Proofs.Renaming.Scoping
import Kiln.Proofs.Store.Chains

namespace Kiln

/-! ### Layouts -/

/-- How far out from each scope of a store the scope of the renaming lies. -/
abbrev Layout := List (Option Nat)

namespace Layout

/-- The scope exists, and that of the renaming lies at the distance `d` from it. -/
def At (γ : Layout) (scope : ScopeId) (d : Option Nat) : Prop := γ[scope.index]? = some d

variable {γ δ : Layout} {scope : ScopeId} {d e : Option Nat}

theorem At.mono (grows : γ <+: δ) (h : γ.At scope d) : δ.At scope d := by
  obtain ⟨more, rfl⟩ := grows
  have hlt : scope.index < γ.length := (List.getElem?_eq_some_iff.1 h).1
  rw [At, List.getElem?_append_left hlt]
  exact h

theorem At.unique (h : γ.At scope d) (h' : γ.At scope e) : d = e := by
  rw [At, h] at h'
  exact Option.some.inj h'

theorem At.lt_length (h : γ.At scope d) : scope.index < γ.length :=
  (List.getElem?_eq_some_iff.1 h).1

theorem at_last (γ : Layout) (d : Option Nat) : At (γ ++ [d]) ⟨γ.length⟩ d :=
  List.getElem?_concat_length

/-- A scope of a layout that one scope was added to. -/
theorem At.of_append (h : At (γ ++ [e]) scope d) : γ.At scope d ∨ (scope = ⟨γ.length⟩ ∧ d = e) := by
  obtain ⟨i⟩ := scope
  have hlt : i < (γ ++ [e]).length := h.lt_length
  rw [List.length_append, List.length_singleton] at hlt
  rcases Nat.lt_succ_iff_lt_or_eq.1 hlt with hlt | rfl
  · apply Or.inl
    rwa [At, List.getElem?_append_left hlt] at h
  · exact .inr ⟨rfl, h.unique (at_last γ e)⟩

end Layout

/-! ### Values -/

section Alike

variable (ρ : String → String) (a : Annotations)

/-- A function, and the same function after the renaming, where the scope around it lies at a distance from the
    scope of the renaming. -/
def FunctionAlike (d : Option Nat) (f f' : Function) : Prop :=
  ∃ site : Site, site.distance = d ∧ f' = f.rename ρ a site

/-- Classes that differ in the bodies of their methods only. Between the scope of a class and its methods there
    is one for `this`, at the distance `inner`. -/
structure ClassAlike (γ : Layout) (c c' : Class) : Prop where
  identity : c'.identity = c.identity
  name : c'.name = c.name
  scope : c'.scope = c.scope
  methods : ∃ d inner, γ.At c.scope d ∧ Nested d inner ∧ inner ≠ some 0 ∧ ∀ name : String,
    Option.Rel (FunctionAlike ρ a inner) c.methods[name]? c'.methods[name]?

/-- Values that differ in the bodies of functions only. -/
inductive ValueAlike (γ : Layout) : Value → Value → Prop where
  | void : ValueAlike γ .void .void
  | number (n : Int64) : ValueAlike γ (.number n) (.number n)
  | text (s : String) : ValueAlike γ (.text s) (.text s)
  | bool (b : Bool) : ValueAlike γ (.bool b) (.bool b)
  | closure (identity : Identity) {f f' : Function} {scope : ScopeId} {d : Option Nat}
      (known : γ.At scope d) (h : FunctionAlike ρ a d f f') :
      ValueAlike γ (.closure ⟨identity, f, scope⟩) (.closure ⟨identity, f', scope⟩)
  | builtin (f : Builtin) (identity : Identity) : ValueAlike γ (.builtin f identity) (.builtin f identity)
  | classValue {c c' : Class} (h : ClassAlike ρ a γ c c') : ValueAlike γ (.classValue c) (.classValue c')
  | object {c c' : Class} (h : ClassAlike ρ a γ c c') (id : ObjectId) :
      ValueAlike γ (.object c id) (.object c' id)

end Alike

section Values

variable {ρ : String → String} {a : Annotations} {γ δ : Layout}

theorem isSome_eq_of_rel {α : Type} {r : α → α → Prop} {x y : Option α} (h : Option.Rel r x y) :
    y.isSome = x.isSome := by
  cases h <;> rfl

theorem FunctionAlike.displayName_eq {d : Option Nat} {f f' : Function} (h : FunctionAlike ρ a d f f') :
    f'.displayName = f.displayName := by
  obtain ⟨site, -, rfl⟩ := h
  exact Function.displayName_rename ρ a site f

theorem ClassAlike.mono {c c' : Class} (grows : γ <+: δ) (h : ClassAlike ρ a γ c c') :
    ClassAlike ρ a δ c c' := by
  obtain ⟨hidentity, hname, hscope, d, inner, hd, hmethods⟩ := h
  exact ⟨hidentity, hname, hscope, d, inner, hd.mono grows, hmethods⟩

namespace ValueAlike

variable {v v' w w' : Value}

theorem mono (grows : γ <+: δ) (h : ValueAlike ρ a γ v v') : ValueAlike ρ a δ v v' := by
  cases h with
  | void => exact .void
  | number n => exact .number n
  | text s => exact .text s
  | bool b => exact .bool b
  | closure identity known h => exact .closure identity (known.mono grows) h
  | builtin f identity => exact .builtin f identity
  | classValue h => exact .classValue (h.mono grows)
  | object h id => exact .object (h.mono grows) id

theorem mono_rel (grows : γ <+: δ) {x x' : Option Value} (h : Option.Rel (ValueAlike ρ a γ) x x') :
    Option.Rel (ValueAlike ρ a δ) x x' := by
  cases h with
  | some h => exact .some (h.mono grows)
  | none => exact .none

theorem display_eq (h : ValueAlike ρ a γ v v') : v'.display = v.display := by
  cases h with
  | closure identity known h => exact congrArg (fun name => "<function " ++ name ++ ">") h.displayName_eq
  | classValue h => exact congrArg (fun name => "<class " ++ name ++ ">") h.name
  | object h id => exact congrArg (fun name => "<instance of " ++ name ++ ">") h.name
  | _ => rfl

theorem echo_eq (palette : Text.Palette) (h : ValueAlike ρ a γ v v') :
    v'.echo palette = v.echo palette := by
  have hdisplay := h.display_eq
  cases h with
  | closure identity known h => exact congrArg (palette.paint .blue) hdisplay
  | classValue h => exact congrArg (palette.paint .blue) hdisplay
  | object h id => exact congrArg (palette.paint .blue) hdisplay
  | _ => rfl

theorem kind_eq (h : ValueAlike ρ a γ v v') : v'.kind = v.kind := by
  cases h <;> rfl

theorem same_eq (hv : ValueAlike ρ a γ v v') (hw : ValueAlike ρ a γ w w') : v'.same w' = v.same w := by
  cases hv with
  | classValue hv =>
      cases hw with
      | classValue hw => simp only [Value.same, hv.identity, hw.identity]
      | _ => rfl
  | _ => cases hw <;> rfl

end ValueAlike

end Values

/-! ### Classes -/

/-- Tables of methods stay alike when the methods of a class are entered one after the other. -/
theorem Function.rel_foldl_insert {ρ : String → String} {a : Annotations} {d : Option Nat} :
    ∀ (methods : List Function) (site : Site), site.distance = d →
      ∀ table table' : Std.ExtTreeMap String Function,
        (∀ name : String, Option.Rel (FunctionAlike ρ a d) table[name]? table'[name]?) →
          ∀ name : String, Option.Rel (FunctionAlike ρ a d)
            (methods.foldl (fun table f => table.insert f.displayName f) table)[name]?
            ((Function.renameAll ρ a site methods).foldl
              (fun table f => table.insert f.displayName f) table')[name]?
  | [], _, _, _, _, h => h
  | f :: rest, site, hsite, table, table', h => by
      apply Function.rel_foldl_insert rest (site.child 1)
      · rw [Site.distance_child, hsite]
      · intro name
        rw [Std.ExtTreeMap.getElem?_insert, Std.ExtTreeMap.getElem?_insert,
          Function.displayName_rename]
        split
        · exact .some ⟨site.child 0, by rw [Site.distance_child, hsite], rfl⟩
        · exact h name

/-- A class that is declared at a site, before and after the renaming. -/
theorem ClassAlike.ofFunctions {ρ : String → String} {a : Annotations} {γ : Layout} {scope : ScopeId}
    {site : Site} (hscope : γ.At scope site.distance) (identity : Identity) (name : String)
    (methods : List Function) :
    ClassAlike ρ a γ (.ofFunctions identity name methods scope)
      (.ofFunctions identity name (Function.renameAll ρ a site.enterClass methods) scope) where
  identity := rfl
  name := rfl
  scope := rfl
  methods := by
    refine ⟨site.distance, site.enterClass.distance, hscope, site.nested_enterClass,
      site.distance_enterClass_ne, ?_⟩
    apply Function.rel_foldl_insert methods site.enterClass rfl
    intro name
    simp

/-! ### Stores -/

/-- Stores of two runs, of which the second is that of the renamed program. -/
structure StoreAlike (ρ : String → String) (a : Annotations) (γ : Layout) (s s' : Store) : Prop where
  size_eq : s.scopes.size = γ.length
  size_eq' : s'.scopes.size = γ.length
  parent?_eq : ∀ scope, s'.parent? scope = s.parent? scope
  nested : ∀ {scope outer : ScopeId} {d : Option Nat}, s.parent? scope = some outer → γ.At scope d →
    ∃ around, γ.At outer around ∧ Nested around d
  cells : ∀ {scope : ScopeId} {d : Option Nat}, γ.At scope d → ∀ name,
    Option.Rel (ValueAlike ρ a γ) (s.cell? scope name) (s'.cell? scope (nameAt ρ d name))
  objects_size_eq : s'.objects.size = s.objects.size
  fields : ∀ (object : ObjectId) (name : String),
    Option.Rel (ValueAlike ρ a γ) (s.fields object)[name]? (s'.fields object)[name]?
  identities_eq : s'.identities = s.identities

namespace StoreAlike

variable {ρ : String → String} {a : Annotations} {γ δ : Layout} {s s' : Store} {scope : ScopeId}
  {d : Option Nat}

/-! #### Finding variables -/

theorem defines_eq (h : StoreAlike ρ a γ s s') (hscope : γ.At scope d) (name : String) :
    s'.defines scope (nameAt ρ d name) = s.defines scope name :=
  isSome_eq_of_rel (h.cells hscope name)

theorem hop?_eq (h : StoreAlike ρ a γ s s') (scope : ScopeId) (k : Nat) :
    s'.hop? scope k = s.hop? scope k := by
  induction k generalizing scope with
  | zero => rfl
  | succ k ih => simp only [Store.hop?, h.parent?_eq, ih]

/-- A reference comes to a scope of the renaming exactly when its distance is that of the scope of the
    renaming. -/
theorem at_hop? (h : StoreAlike ρ a γ s s') {k : Nat} {target : ScopeId} (hscope : γ.At scope d)
    (hk : s.hop? scope k = some target) : ∃ e, γ.At target e ∧ (e = some 0 ↔ d = some k) := by
  induction k generalizing scope d with
  | zero =>
      cases hk
      exact ⟨d, hscope, Iff.rfl⟩
  | succ k ih =>
      obtain ⟨outer, houter, hrest⟩ := Option.bind_eq_some_iff.1 hk
      obtain ⟨around, haround, hnested⟩ := h.nested houter hscope
      obtain ⟨e, he, hiff⟩ := ih haround hrest
      refine ⟨e, he, hiff.trans ?_⟩
      cases hnested <;> simp

/-- Outside of the scope of the renaming, a search finds the same scope. -/
theorem ownerWithin?_eq (h : StoreAlike ρ a γ s s') (name : String) (n : Nat)
    (hscope : γ.At scope none) :
    s'.ownerWithin? name n scope = s.ownerWithin? name n scope ∧
      ∀ target, s.ownerWithin? name n scope = some target → γ.At target none := by
  induction n generalizing scope with
  | zero => exact ⟨rfl, fun _ hnone => by cases hnone⟩
  | succ n ih =>
      have hdefines : s'.defines scope name = s.defines scope name := h.defines_eq hscope name
      simp only [Store.ownerWithin?, hdefines, h.parent?_eq]
      split
      · refine ⟨rfl, fun target htarget => ?_⟩
        cases htarget
        exact hscope
      · cases hparent : s.parent? scope with
        | none => exact ⟨rfl, fun _ hnone => by cases hnone⟩
        | some outer =>
            obtain ⟨around, haround, hnested⟩ := h.nested hparent hscope
            cases hnested
            exact ih haround

/-- A reference under its new name finds the scope that it found under its old name, and there its new name
    is that of the variable. -/
theorem find (h : StoreAlike ρ a γ s s') {globals : ScopeId} (hglobals : γ.At globals none)
    (hscope : γ.At scope d) (name : String) (id : NodeId) :
    Finder.lexical globals a s' scope (referAt ρ d (a.get? id) name) id
        = Finder.lexical globals a s scope name id ∧
      ∀ target, Finder.lexical globals a s scope name id = some target →
        ∃ e, γ.At target e ∧ referAt ρ d (a.get? id) name = nameAt ρ e name := by
  unfold Finder.lexical
  cases hid : a.get? id with
  | none =>
      have hname : referAt ρ d none name = name := by
        cases d <;> simp [referAt]
      simp only [hname]
      obtain ⟨hfind, htarget⟩ := h.ownerWithin?_eq name s.scopes.size hglobals
      constructor
      · rw [Store.owner?, Store.owner?, h.size_eq', ← h.size_eq, hfind]
      · exact fun target hfound => ⟨none, htarget target hfound, rfl⟩
  | some k =>
      simp only [Store.ownerAt?, h.hop?_eq]
      cases hhop : s.hop? scope k with
      | none => exact ⟨rfl, fun _ hnone => by cases hnone⟩
      | some target =>
          obtain ⟨e, he, hiff⟩ := h.at_hop? hscope hhop
          have hname : referAt ρ d (some k) name = nameAt ρ e name := by
            unfold referAt nameAt
            by_cases hd : d = some k
            · rw [if_pos (hiff.2 hd), if_pos ⟨by rw [hd]; rfl, hd.symm⟩]
            · rw [if_neg (hd ∘ hiff.1), if_neg fun hand => hd hand.2.symm]
          constructor
          · simp only [Option.filter, hname, h.defines_eq he]
          · intro found hfound
            obtain ⟨hsame, _⟩ := Option.filter_eq_some_iff.1 hfound
            cases hsame
            exact ⟨e, he, hname⟩

/-! #### Operations -/

theorem nameAt_inj (exchange : Exchange ρ) {m n : String} : nameAt ρ d m = nameAt ρ d n ↔ m = n := by
  unfold nameAt
  split
  · exact exchange.eq_iff
  · exact Iff.rfl

/-- Writing a variable under its new name keeps stores alike. -/
theorem put (exchange : Exchange ρ) (h : StoreAlike ρ a γ s s') (hscope : γ.At scope d) (name : String)
    {v v' : Value} (hv : ValueAlike ρ a γ v v') :
    StoreAlike ρ a γ (s.put scope name v) (s'.put scope (nameAt ρ d name) v') where
  size_eq := by rw [Store.size_put, h.size_eq]
  size_eq' := by rw [Store.size_put, h.size_eq']
  parent?_eq other := by rw [Store.parent?_put, Store.parent?_put, h.parent?_eq]
  nested houter hother := by
    rw [Store.parent?_put] at houter
    exact h.nested houter hother
  cells := by
    intro other e hother sought
    have hlt : scope.index < s.scopes.size := by
      rw [h.size_eq]
      exact hscope.lt_length
    have hlt' : scope.index < s'.scopes.size := by
      rw [h.size_eq']
      exact hscope.lt_length
    rw [Store.cell?_put s hlt, Store.cell?_put s' hlt']
    by_cases hsame : scope = other
    · subst hsame
      cases hscope.unique hother
      simp only [true_and, nameAt_inj exchange]
      split
      · exact .some hv
      · exact h.cells hscope sought
    · simp only [hsame, false_and, if_false]
      exact h.cells hother sought
  objects_size_eq := h.objects_size_eq
  fields := h.fields
  identities_eq := h.identities_eq

/-- A new scope has the same number in both stores, and the layout tells where it lies. -/
theorem newScope (h : StoreAlike ρ a γ s s') {outer : ScopeId} {around : Option Nat}
    (houter : γ.At outer around) (nested : Nested around d) (origin origin' : Origin) :
    (s'.newScope origin' (some outer)).1 = (s.newScope origin (some outer)).1 ∧
      Layout.At (γ ++ [d]) (s.newScope origin (some outer)).1 d ∧
      StoreAlike ρ a (γ ++ [d]) (s.newScope origin (some outer)).2
        (s'.newScope origin' (some outer)).2 := by
  have hnumber : (s.newScope origin (some outer)).1 = ⟨γ.length⟩ := by
    rw [← h.size_eq]
    rfl
  have hnumber' : (s'.newScope origin' (some outer)).1 = ⟨γ.length⟩ := by
    rw [← h.size_eq']
    rfl
  have hgrows : γ <+: γ ++ [d] := List.prefix_append γ [d]
  refine ⟨hnumber'.trans hnumber.symm, hnumber ▸ Layout.at_last γ d, ?_⟩
  constructor
  · simp [Store.newScope, h.size_eq]
  · simp [Store.newScope, h.size_eq']
  · intro other
    rw [Store.parent?_newScope, Store.parent?_newScope, hnumber, hnumber', h.parent?_eq]
  · intro other outer' e hparent hother
    rw [Store.parent?_newScope, hnumber] at hparent
    split at hparent
    · next hnew =>
      cases hparent
      subst hnew
      cases hother.unique (Layout.at_last γ d)
      exact ⟨around, houter.mono hgrows, nested⟩
    · next hold =>
      rcases hother.of_append with hother | ⟨hnew, _⟩
      · obtain ⟨e', he', hnested⟩ := h.nested hparent hother
        exact ⟨e', he'.mono hgrows, hnested⟩
      · exact absurd hnew hold
  · intro other e hother name
    rw [Store.cell?_newScope, Store.cell?_newScope]
    rcases hother.of_append with hother | ⟨rfl, _⟩
    · exact ValueAlike.mono_rel hgrows (h.cells hother name)
    · -- the new scope has no variables yet
      have hnone : ∀ {t : Store} (name : String), t.scopes.size = γ.length →
          t.cell? ⟨γ.length⟩ name = none := by
        intro t name hsize
        simp [Store.cell?, ← hsize]
      rw [hnone _ h.size_eq, hnone _ h.size_eq']
      exact .none
  · exact h.objects_size_eq
  · intro object name
    exact ValueAlike.mono_rel hgrows (h.fields object name)
  · exact h.identities_eq

theorem newObject (h : StoreAlike ρ a γ s s') :
    s'.newObject.1 = s.newObject.1 ∧ StoreAlike ρ a γ s.newObject.2 s'.newObject.2 := by
  constructor
  · simp [Store.newObject, h.objects_size_eq]
  · refine { h with objects_size_eq := ?_, fields := ?_ }
    · simp [Store.newObject, h.objects_size_eq]
    · intro object name
      rw [Store.fields_newObject, Store.fields_newObject]
      exact h.fields object name

theorem setField (h : StoreAlike ρ a γ s s') (object : ObjectId) (name : String) {v v' : Value}
    (hv : ValueAlike ρ a γ v v') :
    StoreAlike ρ a γ (s.setField object name v) (s'.setField object name v') := by
  refine { h with objects_size_eq := ?_, fields := ?_ }
  · simp [Store.setField, h.objects_size_eq]
  · intro other sought
    by_cases hlt : object.index < s.objects.size
    · rw [Store.fields_setField s hlt, Store.fields_setField s' (h.objects_size_eq ▸ hlt)]
      split
      · exact .some hv
      · exact h.fields other sought
    · have hle : s.objects.size ≤ object.index := Nat.le_of_not_lt hlt
      rw [Store.fields_setField_of_size_le s hle,
        Store.fields_setField_of_size_le s' (h.objects_size_eq ▸ hle)]
      exact h.fields other sought

theorem newIdentity (h : StoreAlike ρ a γ s s') :
    s'.newIdentity.1 = s.newIdentity.1 ∧ StoreAlike ρ a γ s.newIdentity.2 s'.newIdentity.2 := by
  constructor
  · simp [Store.newIdentity, h.identities_eq]
  · refine { h with identities_eq := ?_ }
    simp [Store.newIdentity, h.identities_eq]

end StoreAlike

end Kiln
