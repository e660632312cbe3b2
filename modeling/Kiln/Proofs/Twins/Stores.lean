/-
Module: Kiln.Proofs.Twins.Stores
Purpose: The stores of two programs that do the same. They have the same scopes, objects and identities, and hold
  the same values, up to the bodies of functions, which are twins. Variables are found in the same places, and
  writing twins into twins gives twins.
Main exports: Class.Twin, Value.Twin, Value.Twin.display_eq, Store.Twin, Store.Twin.owner?_eq,
  Store.Twin.ownerAt?_eq, Store.Twin.put, Store.Twin.newScope, Finder.Twin, Finder.twin_lexical
-/
import Mathlib.Data.Option.Basic
import Kiln.Eval.Basic
import Kiln.Proofs.Store.Chains
import Kiln.Proofs.Twins.Tree

namespace Kiln

/-! ### Values -/

section Relations

variable (I : NodeId → NodeId → Prop)

/-- Classes that differ in the bodies of their methods only, which do the same. -/
structure Class.Twin (c c' : Class) : Prop where
  identity : c'.identity = c.identity
  name : c'.name = c.name
  scope : c'.scope = c.scope
  methods : ∀ name : String, Option.Rel (Function.Twin I) c.methods[name]? c'.methods[name]?

/-- Values that differ in the bodies of functions only, which do the same. -/
inductive Value.Twin : Value → Value → Prop where
  | void : Value.Twin .void .void
  | number (n : Int64) : Value.Twin (.number n) (.number n)
  | text (s : String) : Value.Twin (.text s) (.text s)
  | bool (b : Bool) : Value.Twin (.bool b) (.bool b)
  | closure (identity : Identity) (scope : ScopeId) {f f' : Function} (h : f.Twin I f') :
      Value.Twin (.closure ⟨identity, f, scope⟩) (.closure ⟨identity, f', scope⟩)
  | builtin (f : Builtin) (identity : Identity) : Value.Twin (.builtin f identity) (.builtin f identity)
  | classValue {c c' : Class} (h : c.Twin I c') : Value.Twin (.classValue c) (.classValue c')
  | object {c c' : Class} (h : c.Twin I c') (id : ObjectId) : Value.Twin (.object c id) (.object c' id)

end Relations

variable {I : NodeId → NodeId → Prop}

namespace Value.Twin

variable {v v' u u' : Value}

theorem display_eq (h : v.Twin I v') : v'.display = v.display := by
  cases h with
  | closure _ _ h => exact congrArg (fun name => "<function " ++ name ++ ">") h.displayName_eq
  | classValue h => exact congrArg (fun name => "<class " ++ name ++ ">") h.name
  | object h _ => exact congrArg (fun name => "<instance of " ++ name ++ ">") h.name
  | _ => rfl

theorem echo_eq (palette : Text.Palette) (h : v.Twin I v') : v'.echo palette = v.echo palette := by
  have hdisplay := h.display_eq
  cases h with
  | closure _ _ _ => exact congrArg (palette.paint .blue) hdisplay
  | classValue _ => exact congrArg (palette.paint .blue) hdisplay
  | object _ _ => exact congrArg (palette.paint .blue) hdisplay
  | _ => rfl

theorem kind_eq (h : v.Twin I v') : v'.kind = v.kind := by
  cases h <;> rfl

theorem same_eq (hv : v.Twin I v') (hu : u.Twin I u') : v'.same u' = v.same u := by
  cases hv with
  | classValue hv =>
      cases hu with
      | classValue hu => simp only [Value.same, hv.identity, hu.identity]
      | _ => rfl
  | _ => cases hu <;> rfl

end Value.Twin

/-! ### Classes -/

/-- Tables of methods stay twins when the methods of a class are entered one after the other. -/
theorem Function.Twins.rel_foldl_insert {fs fs' : List Function} (h : Function.Twins I fs fs') :
    ∀ {table table' : Std.ExtTreeMap String Function},
      (∀ name : String, Option.Rel (Function.Twin I) table[name]? table'[name]?) →
      ∀ name : String, Option.Rel (Function.Twin I)
        (fs.foldl (fun table f => table.insert f.displayName f) table)[name]?
        (fs'.foldl (fun table f => table.insert f.displayName f) table')[name]? := by
  induction fs generalizing fs' with
  | nil =>
      cases h
      exact id
  | cons f rest ih =>
      cases h with
      | cons head tail =>
          intro table table' htable
          apply ih tail
          intro name
          rw [Std.ExtTreeMap.getElem?_insert, Std.ExtTreeMap.getElem?_insert, head.displayName_eq]
          split
          · exact .some head
          · exact htable name

theorem Class.Twin.ofFunctions (identity : Identity) (name : String) {fs fs' : List Function}
    (h : Function.Twins I fs fs') (scope : ScopeId) :
    Class.Twin I (.ofFunctions identity name fs scope) (.ofFunctions identity name fs' scope) where
  identity := rfl
  name := rfl
  scope := rfl
  methods := h.rel_foldl_insert fun name => by simp

/-! ### Stores -/

/-- Stores of programs that do the same. -/
structure Store.Twin (I : NodeId → NodeId → Prop) (s s' : Store) : Prop where
  size_eq : s'.scopes.size = s.scopes.size
  parent?_eq : ∀ scope, s'.parent? scope = s.parent? scope
  cells : ∀ scope name, Option.Rel (Value.Twin I) (s.cell? scope name) (s'.cell? scope name)
  objects_size_eq : s'.objects.size = s.objects.size
  fields : ∀ (object : ObjectId) (name : String),
    Option.Rel (Value.Twin I) (s.fields object)[name]? (s'.fields object)[name]?
  identities_eq : s'.identities = s.identities

namespace Store.Twin

variable {s s' : Store} {v v' : Value}

/-! #### Finding variables -/

theorem defines_eq (h : s.Twin I s') (scope : ScopeId) (name : String) :
    s'.defines scope name = s.defines scope name := by
  have hcell := h.cells scope name
  unfold Store.defines
  revert hcell
  generalize s.cell? scope name = x
  generalize s'.cell? scope name = x'
  intro hcell
  cases hcell <;> rfl

theorem hop?_eq (h : s.Twin I s') (scope : ScopeId) (k : Nat) : s'.hop? scope k = s.hop? scope k := by
  induction k generalizing scope with
  | zero => rfl
  | succ k ih => simp only [Store.hop?, h.parent?_eq, ih]

theorem ownerAt?_eq (h : s.Twin I s') (scope : ScopeId) (k : Nat) (name : String) :
    s'.ownerAt? scope k name = s.ownerAt? scope k name := by
  simp only [Store.ownerAt?, h.hop?_eq, h.defines_eq]

theorem ownerWithin?_eq (h : s.Twin I s') (name : String) (n : Nat) (scope : ScopeId) :
    s'.ownerWithin? name n scope = s.ownerWithin? name n scope := by
  induction n generalizing scope with
  | zero => rfl
  | succ n ih => simp only [Store.ownerWithin?, h.defines_eq, h.parent?_eq, ih]

theorem owner?_eq (h : s.Twin I s') (scope : ScopeId) (name : String) :
    s'.owner? scope name = s.owner? scope name := by
  rw [Store.owner?, Store.owner?, h.size_eq, h.ownerWithin?_eq]

theorem get? (h : s.Twin I s') (scope : ScopeId) (name : String) :
    Option.Rel (Value.Twin I) (s.get? scope name) (s'.get? scope name) := by
  rw [Store.get?, Store.get?, h.owner?_eq]
  cases s.owner? scope name with
  | none => exact .none
  | some owner => exact h.cells owner name

/-! #### Operations -/

theorem put (h : s.Twin I s') (scope : ScopeId) (name : String) (hv : v.Twin I v') :
    (s.put scope name v).Twin I (s'.put scope name v') := by
  by_cases hlt : scope.index < s.scopes.size
  · have hlt' : scope.index < s'.scopes.size := h.size_eq ▸ hlt
    refine { h with size_eq := ?_, parent?_eq := ?_, cells := ?_ }
    · rw [Store.size_put, Store.size_put, h.size_eq]
    · intro other
      rw [Store.parent?_put, Store.parent?_put, h.parent?_eq]
    · intro other sought
      rw [Store.cell?_put s hlt, Store.cell?_put s' hlt']
      split
      · exact .some hv
      · exact h.cells other sought
  · have hle : s.scopes.size ≤ scope.index := Nat.le_of_not_lt hlt
    rw [s.put_of_size_le hle, s'.put_of_size_le (h.size_eq ▸ hle)]
    exact h

theorem newScope (h : s.Twin I s') (origin origin' : Origin) (outer : Option ScopeId) :
    (s'.newScope origin' outer).1 = (s.newScope origin outer).1 ∧
      (s.newScope origin outer).2.Twin I (s'.newScope origin' outer).2 := by
  have hnumber : (s'.newScope origin' outer).1 = (s.newScope origin outer).1 := by
    simp only [Store.newScope, h.size_eq]
  refine ⟨hnumber, { h with size_eq := ?_, parent?_eq := ?_, cells := ?_ }⟩
  · simp [Store.newScope, h.size_eq]
  · intro other
    rw [Store.parent?_newScope, Store.parent?_newScope, hnumber, h.parent?_eq]
  · intro other name
    rw [Store.cell?_newScope, Store.cell?_newScope]
    exact h.cells other name

theorem newObject (h : s.Twin I s') :
    s'.newObject.1 = s.newObject.1 ∧ s.newObject.2.Twin I s'.newObject.2 := by
  constructor
  · simp only [Store.newObject, h.objects_size_eq]
  · refine { h with objects_size_eq := ?_, fields := ?_ }
    · simp [Store.newObject, h.objects_size_eq]
    · intro object name
      rw [Store.fields_newObject, Store.fields_newObject]
      exact h.fields object name

theorem setField (h : s.Twin I s') (object : ObjectId) (name : String) (hv : v.Twin I v') :
    (s.setField object name v).Twin I (s'.setField object name v') := by
  refine { h with objects_size_eq := ?_, fields := ?_ }
  · simp [Store.setField, h.objects_size_eq]
  · intro other sought
    by_cases hlt : object.index < s.objects.size
    · rw [Store.fields_setField s hlt, Store.fields_setField s' (h.objects_size_eq ▸ hlt)]
      split
      · exact .some hv
      · exact h.fields other sought
    · have hle : s.objects.size ≤ object.index := Nat.le_of_not_lt hlt
      rw [Store.fields_setField_of_size_le s hle,
        Store.fields_setField_of_size_le s' (h.objects_size_eq ▸ hle)]
      exact h.fields other sought

theorem newIdentity (h : s.Twin I s') :
    s'.newIdentity.1 = s.newIdentity.1 ∧ s.newIdentity.2.Twin I s'.newIdentity.2 := by
  constructor
  · simp only [Store.newIdentity, h.identities_eq]
  · refine { h with identities_eq := ?_ }
    simp only [Store.newIdentity, h.identities_eq]

end Store.Twin

/-! ### Finding variables in both stores -/

/-- In twins of stores, references under linked ids find the same scope. -/
def Finder.Twin (I : NodeId → NodeId → Prop) (find find' : Finder) : Prop :=
  ∀ {s s' : Store} {i j : NodeId}, s.Twin I s' → I i j →
    ∀ scope name, find' s' scope name j = find s scope name i

/-- References are found in the same places if linked ids have the same distance. -/
theorem Finder.twin_lexical (globals : ScopeId) {a b : Annotations}
    (h : ∀ i j, I i j → b.get? j = a.get? i) :
    Finder.Twin I (.lexical globals a) (.lexical globals b) := by
  intro s s' i j store linked scope name
  simp only [Finder.lexical, h i j linked]
  cases a.get? i with
  | some distance => exact store.ownerAt?_eq scope distance name
  | none => exact store.owner?_eq globals name

end Kiln
