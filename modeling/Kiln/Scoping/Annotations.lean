/-
Module: Kiln.Scoping.Annotations
Purpose: What the scope analysis finds out about references: for each one that is bound inside some
  scope, how many scopes further out its variable lives. A reference without an entry is looked up among
  the globals when it is evaluated.
Main exports: Annotations, Annotations.get?, Annotations.record, Annotations.extend,
  Annotations.toList
-/
import Std.Data.ExtTreeMap
import Kiln.Tree.Basic

namespace Kiln

/-- The lexical distances of references, by their ids. -/
structure Annotations where
  table : Std.ExtTreeMap Nat Nat

namespace Annotations

/-- No reference is bound. -/
def empty : Annotations := ⟨∅⟩

instance : Inhabited Annotations := ⟨empty⟩

/-- The distance of a reference, if it has one. -/
def get? (a : Annotations) (id : NodeId) : Option Nat := a.table[id.index]?

/-- Notes the distance of a reference, in place of an older one. -/
def record (a : Annotations) (id : NodeId) (distance : Nat) : Annotations :=
  ⟨a.table.insert id.index distance⟩

/-- All entries of both tables; where both have one, that of `later` counts. -/
def extend (a later : Annotations) : Annotations := ⟨a.table ∪ later.table⟩

/-- How many references have a distance. -/
def size (a : Annotations) : Nat := a.table.size

/-- The entries in the order of their ids, which is the order of the source. -/
def toList (a : Annotations) : List (NodeId × Nat) :=
  a.table.toList.map fun (index, distance) => (⟨index⟩, distance)

/-! ### What the operations do to look-ups -/

/-- Two tables are the same when they agree on every reference. -/
theorem ext_get? {a b : Annotations} (h : ∀ id, a.get? id = b.get? id) : a = b := by
  obtain ⟨s⟩ := a
  obtain ⟨t⟩ := b
  congr 1
  exact Std.ExtTreeMap.ext_getElem? fun k => h ⟨k⟩

@[simp]
theorem get?_empty (id : NodeId) : empty.get? id = none := by
  simp [get?, empty]

@[simp]
theorem get?_record (a : Annotations) (id other : NodeId) (distance : Nat) :
    (a.record id distance).get? other = if id = other then some distance else a.get? other := by
  obtain ⟨i⟩ := id
  obtain ⟨j⟩ := other
  simp [get?, record, Std.ExtTreeMap.getElem?_insert]

@[simp]
theorem get?_extend (a later : Annotations) (id : NodeId) :
    (a.extend later).get? id = (later.get? id).or (a.get? id) := by
  simp [get?, extend, Std.ExtTreeMap.getElem?_union]

end Annotations

end Kiln
