/-
Module: Kiln.Proofs.Renumbering.Stores
Purpose: Values and stores with other ids in the bodies of functions. Ids are found nowhere else in a store, so
  every operation on it commutes with a renumbering, and nothing that is shown of a value depends on them.
Main exports: Value.renumber, Store.renumber, World.renumber, Halt.renumber, Store.cell?_renumber,
  Store.put_renumber, Store.debug_renumber, Value.display_renumber, Operators.binary_renumber
-/
import Kiln.Eval.Basic
import Kiln.Proofs.Renumbering.Tree
import Kiln.Store.Inspect

namespace Kiln

/-! ### Values -/

/-- A function value with other ids in its body. -/
def Closure.renumber (f : NodeId → NodeId) (c : Closure) : Closure :=
  { c with function := c.function.renumber f }

/-- A class with other ids in its methods. -/
def Class.renumber (f : NodeId → NodeId) (c : Class) : Class :=
  { c with methods := c.methods.map fun _ method => method.renumber f }

/-- A value with other ids in the bodies of functions. -/
def Value.renumber (f : NodeId → NodeId) : Value → Value
  | .closure c => .closure (c.renumber f)
  | .classValue c => .classValue (c.renumber f)
  | .object c id => .object (c.renumber f) id
  | v => v

section Values

variable (f : NodeId → NodeId)

theorem Class.getElem?_methods_renumber (c : Class) (name : String) :
    (c.renumber f).methods[name]? = c.methods[name]?.map (Function.renumber f) :=
  Std.ExtTreeMap.getElem?_map

/-- The methods of a class are entered one after the other. -/
theorem Function.map_foldl_insert (methods : List Function) (table : Std.ExtTreeMap String Function) :
    (methods.foldl (fun table g => table.insert g.displayName g) table).map
        (fun _ method => method.renumber f) =
      (Function.renumberAll f methods).foldl (fun table g => table.insert g.displayName g)
        (table.map fun _ method => method.renumber f) := by
  induction methods generalizing table with
  | nil => rfl
  | cons g rest ih =>
      rw [Function.renumberAll, List.foldl_cons, List.foldl_cons, ih, Function.displayName_renumber]
      congr 1
      apply Std.ExtTreeMap.ext_getElem?
      intro name
      simp only [Std.ExtTreeMap.getElem?_map, Std.ExtTreeMap.getElem?_insert]
      split <;> rfl

theorem Class.ofFunctions_renumber (identity : Identity) (name : String) (methods : List Function)
    (scope : ScopeId) :
    (Class.ofFunctions identity name methods scope).renumber f =
      .ofFunctions identity name (Function.renumberAll f methods) scope := by
  rw [Class.renumber, Class.ofFunctions, Class.ofFunctions, Function.map_foldl_insert]
  congr 2

@[simp]
theorem Value.display_renumber (v : Value) : (v.renumber f).display = v.display := by
  cases v with
  | closure c =>
      exact congrArg (fun name => "<function " ++ name ++ ">") (Function.displayName_renumber f _)
  | _ => rfl

theorem Value.echo_renumber (palette : Text.Palette) (v : Value) :
    (v.renumber f).echo palette = v.echo palette := by
  have hdisplay := v.display_renumber f
  cases v with
  | closure c => exact congrArg (palette.paint .blue) hdisplay
  | _ => rfl

theorem Operators.arithmetic_renumber (op : BinaryOp) (a b : Int64) :
    (Operators.arithmetic op a b).map (Value.renumber f) = Operators.arithmetic op a b := by
  unfold Operators.arithmetic
  split
  case h_4 | h_5 => split <;> rfl
  all_goals rfl

/-- Operators see nothing of a function but its identity. -/
theorem Operators.binary_renumber (op : BinaryOp) (v u : Value) :
    Operators.binary op (v.renumber f) (u.renumber f) =
      (Operators.binary op v u).map (Value.renumber f) := by
  cases v with
  | number a =>
      cases u with
      | number b =>
          have harithmetic := (Operators.arithmetic_renumber f op a b).symm
          cases op with
          | equal | notEqual => rfl
          | _ => exact harithmetic
      | _ => cases op <;> rfl
  | _ => cases op <;> cases u <;> rfl

theorem Operators.unary_renumber (op : UnaryOp) (v : Value) :
    Operators.unary op (v.renumber f) = (Operators.unary op v).map (Value.renumber f) := by
  cases op <;> cases v <;> rfl

end Values

/-! ### Stores -/

/-- What a scope was opened for, with other ids. -/
def Origin.renumber (f : NodeId → NodeId) : Origin → Origin
  | .outside => .outside
  | .block body => .block (Stmt.renumberAll f body)
  | .call function => .call (function.renumber f)
  | .binding method => .binding (method.renumber f)

/-- Variables or fields with other ids in the bodies of functions. -/
def Cells.renumber (f : NodeId → NodeId) (cells : Cells) : Cells :=
  cells.map fun _ value => value.renumber f

/-- A scope with other ids in the bodies of functions. -/
def Scope.renumber (f : NodeId → NodeId) (s : Scope) : Scope :=
  ⟨s.origin.renumber f, s.parent, Cells.renumber f s.cells⟩

/-- A store with other ids in the bodies of functions. -/
def Store.renumber (f : NodeId → NodeId) (s : Store) : Store :=
  ⟨s.scopes.map (Scope.renumber f), s.objects.map (Cells.renumber f), s.identities⟩

/-- A world with other ids in the bodies of functions. -/
def World.renumber (f : NodeId → NodeId) (w : World) : World := { w with store := w.store.renumber f }

theorem Cells.insert_renumber (f : NodeId → NodeId) (cells : Cells) (name : String) (value : Value) :
    Cells.renumber f (cells.insert name value) =
      (Cells.renumber f cells).insert name (value.renumber f) := by
  apply Std.ExtTreeMap.ext_getElem?
  intro sought
  simp only [Cells.renumber, Std.ExtTreeMap.getElem?_map, Std.ExtTreeMap.getElem?_insert]
  split <;> rfl

theorem Cells.getElem?_renumber (f : NodeId → NodeId) (cells : Cells) (name : String) :
    (Cells.renumber f cells)[name]? = cells[name]?.map (Value.renumber f) :=
  Std.ExtTreeMap.getElem?_map

theorem Cells.renumber_empty (f : NodeId → NodeId) : Cells.renumber f ∅ = ∅ := by
  apply Std.ExtTreeMap.ext_getElem?
  intro name
  simp [Cells.renumber]

namespace Store

variable (f : NodeId → NodeId) (s : Store)

@[simp]
theorem size_renumber : (s.renumber f).scopes.size = s.scopes.size := by
  simp [renumber]

theorem getElem?_renumber (i : Nat) :
    (s.renumber f).scopes[i]? = s.scopes[i]?.map (Scope.renumber f) := by
  simp [renumber]

@[simp]
theorem parent?_renumber (scope : ScopeId) : (s.renumber f).parent? scope = s.parent? scope := by
  rw [parent?, parent?, getElem?_renumber, Option.bind_map]
  rfl

theorem cell?_renumber (scope : ScopeId) (name : String) :
    (s.renumber f).cell? scope name = (s.cell? scope name).map (Value.renumber f) := by
  rw [cell?, cell?, getElem?_renumber, Option.bind_map]
  cases s.scopes[scope.index]? with
  | none => rfl
  | some sc => exact Cells.getElem?_renumber f sc.cells name

@[simp]
theorem defines_renumber (scope : ScopeId) (name : String) :
    (s.renumber f).defines scope name = s.defines scope name := by
  rw [defines, defines, cell?_renumber, Option.isSome_map]

/-! #### Finding variables -/

@[simp]
theorem hop?_renumber (scope : ScopeId) (k : Nat) :
    (s.renumber f).hop? scope k = s.hop? scope k := by
  induction k generalizing scope with
  | zero => rfl
  | succ k ih => simp only [hop?, parent?_renumber, ih]

theorem ownerWithin?_renumber (name : String) (n : Nat) (scope : ScopeId) :
    (s.renumber f).ownerWithin? name n scope = s.ownerWithin? name n scope := by
  induction n generalizing scope with
  | zero => rfl
  | succ n ih => simp only [ownerWithin?, defines_renumber, parent?_renumber, ih]

theorem owner?_renumber (scope : ScopeId) (name : String) :
    (s.renumber f).owner? scope name = s.owner? scope name := by
  rw [owner?, owner?, size_renumber, ownerWithin?_renumber]

theorem ownerAt?_renumber (scope : ScopeId) (k : Nat) (name : String) :
    (s.renumber f).ownerAt? scope k name = s.ownerAt? scope k name := by
  simp only [ownerAt?, hop?_renumber, defines_renumber]

/-! #### Operations -/

theorem put_renumber (scope : ScopeId) (name : String) (value : Value) :
    (s.put scope name value).renumber f = (s.renumber f).put scope name (value.renumber f) := by
  rw [put, put, renumber, renumber]
  congr 1
  apply Array.ext_getElem?
  intro i
  simp only [Array.getElem?_map, Array.getElem?_modify]
  split
  · cases s.scopes[i]? with
    | none => rfl
    | some sc =>
        simp only [Option.map_some, Scope.renumber, Cells.insert_renumber]
  · rfl

theorem newScope_renumber (origin : Origin) (parent : Option ScopeId) :
    (s.renumber f).newScope (origin.renumber f) parent =
      ((s.newScope origin parent).1, (s.newScope origin parent).2.renumber f) := by
  simp [newScope, renumber, Scope.renumber, Cells.renumber_empty]

theorem newObject_renumber :
    (s.renumber f).newObject = (s.newObject.1, s.newObject.2.renumber f) := by
  simp [newObject, renumber, Cells.renumber_empty]

theorem newIdentity_renumber :
    (s.renumber f).newIdentity = (s.newIdentity.1, s.newIdentity.2.renumber f) := rfl

theorem newBuiltins_renumber :
    (s.renumber f).newBuiltins = (s.newBuiltins.1, s.newBuiltins.2.renumber f) := by
  have hopen := s.newIdentity.2.newScope_renumber f .outside none
  rw [newBuiltins, newIdentity_renumber]
  simp only [Origin.renumber] at hopen
  simp only [newBuiltins, put_renumber, hopen]
  rfl

theorem fields_renumber (object : ObjectId) :
    (s.renumber f).fields object = Cells.renumber f (s.fields object) := by
  simp only [fields, renumber, Array.getElem?_map]
  cases s.objects[object.index]? with
  | none => exact (Cells.renumber_empty f).symm
  | some cells => rfl

theorem setField_renumber (object : ObjectId) (name : String) (value : Value) :
    (s.setField object name value).renumber f =
      (s.renumber f).setField object name (value.renumber f) := by
  rw [setField, setField, renumber, renumber]
  congr 1
  apply Array.ext_getElem?
  intro i
  simp only [Array.getElem?_map, Array.getElem?_modify]
  split
  · cases s.objects[i]? with
    | none => rfl
    | some cells => simp only [Option.map_some, Cells.insert_renumber]
  · rfl

/-! #### What is shown of a value -/

theorem inspect_renumber (depth : Nat) (v : Value) :
    (s.renumber f).inspect depth (v.renumber f) = s.inspect depth v := by
  induction depth generalizing v with
  | zero =>
      cases v with
      | closure c => exact Value.display_renumber f (.closure c)
      | _ => rfl
  | succ depth ih =>
      cases v with
      | closure c => exact Value.display_renumber f (.closure c)
      | object c object =>
          have hobject : (Value.object c object).renumber f = .object (c.renumber f) object := rfl
          rw [hobject]
          simp only [inspect, fields_renumber, Cells.renumber, Std.ExtTreeMap.toList_map,
            List.map_map, Function.comp_def, ih]
          rfl
      | _ => rfl

theorem debug_renumber (v : Value) : (s.renumber f).debug (v.renumber f) = s.debug v := by
  rw [debug, debug, inspect_renumber]
  simp [renumber]

end Store

/-! ### Failures -/

/-- A cause with another id for the reference that misses its variable. -/
def RuntimeError.renumber (f : NodeId → NodeId) : RuntimeError → RuntimeError
  | .undefinedVariable name reference => .undefinedVariable name (f reference)
  | e => e

/-- The reason for a stop with another id. -/
def Halt.renumber (f : NodeId → NodeId) : Halt → Halt
  | .failed cause => .failed (cause.renumber f)
  | .outOfFuel => .outOfFuel

theorem RuntimeError.message_renumber (f : NodeId → NodeId) (palette : Text.Palette)
    (e : RuntimeError) : (e.renumber f).message palette = e.message palette := by
  cases e <;> rfl

end Kiln
