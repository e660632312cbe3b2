/-
Module: Kiln.Store.Lemmas
Purpose: What each operation on the store does to its views: the variables of a scope, the scope around a
  scope, and the fields of an object.
Main exports: Store.cell?_put, Store.parent?_put, Store.cell?_newScope, Store.parent?_newScope,
  Store.fields_setField, Store.fields_newObject
-/
import Kiln.Store.Basic

namespace Kiln.Store

/-! ### Writing a variable -/

@[simp]
theorem size_put (s : Store) (scope : ScopeId) (name : String) (value : Value) :
    (s.put scope name value).scopes.size = s.scopes.size := by
  simp [put]

/-- Writing a variable changes no scope's surroundings. -/
@[simp]
theorem parent?_put (s : Store) (scope other : ScopeId) (name : String) (value : Value) :
    (s.put scope name value).parent? other = s.parent? other := by
  simp only [parent?, put, Array.getElem?_modify]
  split
  · cases s.scopes[other.index]? <;> rfl
  · rfl

/-- Writing a variable of a scope that exists changes this one variable. -/
theorem cell?_put (s : Store) {scope : ScopeId} (h : scope.index < s.scopes.size)
    (other : ScopeId) (name sought : String) (value : Value) :
    (s.put scope name value).cell? other sought
      = if scope = other ∧ name = sought then some value else s.cell? other sought := by
  obtain ⟨i⟩ := scope
  obtain ⟨j⟩ := other
  simp only [cell?, put, Array.getElem?_modify, ScopeId.mk.injEq]
  by_cases hij : i = j
  · subst hij
    have hsome : s.scopes[i]? = some s.scopes[i] := Array.getElem?_eq_getElem h
    simp [hsome, Std.ExtTreeMap.getElem?_insert]
  · simp [hij]

/-! ### Adding a scope -/

/-- A new scope lies where it was asked for; all others stay where they are. -/
theorem parent?_newScope (s : Store) (origin : Origin) (parent : Option ScopeId) (other : ScopeId) :
    (s.newScope origin parent).2.parent? other
      = if other = (s.newScope origin parent).1 then parent else s.parent? other := by
  obtain ⟨j⟩ := other
  simp only [parent?, newScope, Array.getElem?_push, ScopeId.mk.injEq]
  split <;> rfl

/-- A new scope has no variables, and those of all others stay as they are. -/
@[simp]
theorem cell?_newScope (s : Store) (origin : Origin) (parent : Option ScopeId) (other : ScopeId)
    (name : String) : (s.newScope origin parent).2.cell? other name = s.cell? other name := by
  obtain ⟨j⟩ := other
  simp only [cell?, newScope, Array.getElem?_push]
  split
  · next h =>
    subst h
    simp
  · rfl

/-! ### Objects -/

/-- Writing a field of an object that exists changes this one field. -/
theorem fields_setField (s : Store) {object : ObjectId} (h : object.index < s.objects.size)
    (other : ObjectId) (name sought : String) (value : Value) :
    ((s.setField object name value).fields other)[sought]?
      = if object = other ∧ name = sought then some value else (s.fields other)[sought]? := by
  obtain ⟨i⟩ := object
  obtain ⟨j⟩ := other
  simp only [fields, setField, Array.getElem?_modify, ObjectId.mk.injEq]
  by_cases hij : i = j
  · subst hij
    have hsome : s.objects[i]? = some s.objects[i] := Array.getElem?_eq_getElem h
    simp [hsome, Std.ExtTreeMap.getElem?_insert]
  · simp [hij]

/-- Writing a field of an object that does not exist changes no fields. -/
theorem fields_setField_of_size_le (s : Store) {object : ObjectId}
    (h : s.objects.size ≤ object.index) (other : ObjectId) (name : String) (value : Value) :
    (s.setField object name value).fields other = s.fields other := by
  simp only [fields, setField, Array.getElem?_modify]
  split
  · next hsame => rw [← hsame, Array.getElem?_eq_none h, Option.map_none]
  · rfl

/-- A field has the value that was given to it, or the one that it had before. -/
theorem eq_or_eq_of_fields_setField (s : Store) {object other : ObjectId} {name sought : String}
    {value v : Value} (h : ((s.setField object name value).fields other)[sought]? = some v) :
    v = value ∨ (s.fields other)[sought]? = some v := by
  by_cases hlt : object.index < s.objects.size
  · rw [fields_setField s hlt] at h
    split at h
    · cases h
      exact .inl rfl
    · exact .inr h
  · rw [fields_setField_of_size_le s (Nat.le_of_not_lt hlt)] at h
    exact .inr h

/-- A new object has no fields, and those of all others stay as they are. -/
@[simp]
theorem fields_newObject (s : Store) (other : ObjectId) :
    s.newObject.2.fields other = s.fields other := by
  obtain ⟨j⟩ := other
  simp only [fields, newObject, Array.getElem?_push]
  split
  · next h =>
    subst h
    simp
  · rfl

end Kiln.Store
