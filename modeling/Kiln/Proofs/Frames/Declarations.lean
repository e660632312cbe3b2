/-
Module: Kiln.Proofs.Frames.Declarations
Purpose: Where names come from. Scopes are shared between functions, instances and calls, but only the
  statements that are executed in a scope add names to it, and only those that they declare. Whatever else an
  evaluation does, it opens scopes of its own, and leaves the names and the places of all scopes that were
  there before as they are.
Main exports: Store.Gains, Task.Declares, Adds, Adds.bind, Task.run_adds, declarations_stay_in_scope
-/
import Kiln.Proofs.Evaluation.Safe
import Kiln.Proofs.Evaluation.Visits
import Kiln.Proofs.Scoping.Regions
import Kiln.Proofs.Session.History

namespace Kiln

/-! ### Stores -/

/-- The second store has all scopes of the first, at the same places, and all their variables. The names that
    they have gained are among the new ones. -/
structure Store.Gains (s t : Store) (new : ScopeId → String → Prop) : Prop where
  size_le : s.scopes.size ≤ t.scopes.size
  parent : ∀ {scope : ScopeId}, scope.index < s.scopes.size → t.parent? scope = s.parent? scope
  kept : ∀ {scope : ScopeId} {name : String}, s.defines scope name = true → t.defines scope name = true
  gained : ∀ {scope : ScopeId} {name : String}, scope.index < s.scopes.size →
    t.defines scope name = true → s.defines scope name = true ∨ new scope name

namespace Store.Gains

variable {s t u : Store} {new new' : ScopeId → String → Prop}

theorem refl (s : Store) : Gains s s new := ⟨Nat.le_refl _, fun _ => rfl, id, fun _ => .inl⟩

/-- What is gained later counts only where the scope was there at the beginning. -/
theorem trans (h : Gains s t new) (h' : Gains t u new')
    (counts : ∀ scope name, scope.index < s.scopes.size → new' scope name → new scope name) :
    Gains s u new where
  size_le := Nat.le_trans h.size_le h'.size_le
  parent hlt := (h'.parent (Nat.lt_of_lt_of_le hlt h.size_le)).trans (h.parent hlt)
  kept hdefined := h'.kept (h.kept hdefined)
  gained := by
    intro scope name hlt hdefined
    rcases h'.gained (Nat.lt_of_lt_of_le hlt h.size_le) hdefined with hold | hnew
    · exact h.gained hlt hold
    · exact .inr (counts scope name hlt hnew)

/-- Steps that do nothing to scopes. -/
theorem of_scopes_eq (h : Gains s t new) (hsame : u.scopes = t.scopes) : Gains s u new := by
  have hparent : u.parent? = t.parent? := by
    funext scope
    rw [Store.parent?, hsame, Store.parent?]
  have hdefines : u.defines = t.defines := by
    funext scope name
    rw [Store.defines, Store.cell?, hsame, Store.defines, Store.cell?]
  constructor
  · exact hsame ▸ h.size_le
  · exact hparent ▸ h.parent
  · exact hdefines ▸ h.kept
  · exact hdefines ▸ h.gained

/-- A scope is added. -/
theorem newScope (h : Gains s t new) (origin : Origin) (parent : Option ScopeId) :
    Gains s (t.newScope origin parent).2 new where
  size_le := Nat.le_trans h.size_le (by simp [Store.newScope])
  parent := by
    rintro scope hlt
    have hold : scope ≠ (t.newScope origin parent).1 := by
      rintro rfl
      exact Nat.lt_irrefl _ (Nat.lt_of_lt_of_le hlt h.size_le)
    rw [Store.parent?_newScope, if_neg hold]
    exact h.parent hlt
  kept hdefined := by
    rw [Store.defines_newScope]
    exact h.kept hdefined
  gained hlt hdefined := by
    rw [Store.defines_newScope] at hdefined
    exact h.gained hlt hdefined

/-- A variable is written that is there, or lies in a later scope, or may be added. -/
theorem put (h : Gains s t new) {scope : ScopeId} {name : String} (value : Value)
    (place : t.defines scope name = true ∨ s.scopes.size ≤ scope.index ∨ new scope name) :
    Gains s (t.put scope name value) new := by
  by_cases hlt : scope.index < t.scopes.size
  · constructor
    · exact Nat.le_trans h.size_le (Nat.le_of_eq (Store.size_put ..).symm)
    · intro other hother
      rw [Store.parent?_put]
      exact h.parent hother
    · intro other sought hdefined
      exact (Store.defines_put t hlt other name sought value).2 (.inr (h.kept hdefined))
    · intro other sought hother hdefined
      rcases (Store.defines_put t hlt other name sought value).1 hdefined with ⟨rfl, rfl⟩ | hold
      · rcases place with hthere | hlater | hnew
        · exact h.gained hother hthere
        · exact absurd hother (Nat.not_lt.2 hlater)
        · exact .inr hnew
      · exact h.gained hother hold
  · rw [Store.put_of_size_le t (Nat.le_of_not_lt hlt)]
    exact h

end Store.Gains

/-! ### Steps of evaluation -/

namespace Evaluate

open Eval

/-- The outcome of something that was begun in the store `s`: its scopes have gained new names at most. -/
def Adds {ε α : Type} (s : Store) (new : ScopeId → String → Prop) (r : EStateM.Result ε World α) :
    Prop :=
  s.Gains (endWorld r).store new

namespace Adds

variable {α β : Type} {find : Finder} {s : Store} {new : ScopeId → String → Prop} {w : World}

theorem bind {p : Eval α} {f : α → Eval β} (h : Adds s new (p w))
    (hf : ∀ a w', p w = .ok a w' → s.Gains w'.store new → Adds s new (f a w')) :
    Adds s new ((p >>= f) w) := by
  cases hp : p w with
  | error e w' =>
      rw [Eval.bind_of_error hp]
      rwa [hp] at h
  | ok a w' =>
      rw [Eval.bind_of_ok hp]
      rw [hp] at h
      exact hf a w' hp h

theorem ofExcept (h : s.Gains w.store new) (r : Except RuntimeError α) :
    Adds s new (Eval.ofExcept r w) := by
  cases r with
  | ok a => exact h
  | error e => exact h

theorem read (h : s.Gains w.store new) (scope : ScopeId) (name : String) (id : NodeId) :
    Adds s new (Eval.read find scope name id w) := by
  unfold Eval.read
  split
  · exact h
  · exact h

/-- An assignment adds no names: it writes to a variable that was found. -/
theorem write (honest : find.Honest) (h : s.Gains w.store new) (scope : ScopeId) (target : Variable)
    (value : Value) : Adds s new (Eval.write find scope target value w) := by
  unfold Eval.write
  split
  · next owner hfind => exact h.put value (.inl (honest _ _ _ _ _ hfind))
  · exact h

theorem define (h : s.Gains w.store new) {scope : ScopeId} {name : String} (value : Value)
    (place : s.scopes.size ≤ scope.index ∨ new scope name) :
    Adds s new (Eval.define scope name value w) :=
  h.put value (.inr place)

theorem defineAll (h : s.Gains w.store new) {scope : ScopeId} (later : s.scopes.size ≤ scope.index)
    (cells : List (String × Value)) : Adds s new (Eval.defineAll scope cells w) := by
  induction cells generalizing w with
  | nil => exact h
  | cons c rest ih => exact bind (define h c.2 (.inl later)) fun _ _ _ h' => ih h'

theorem newScope (h : s.Gains w.store new) (origin : Origin) (parent : ScopeId) :
    Adds s new (Eval.newScope origin parent w) :=
  Store.Gains.newScope h origin (some parent)

theorem size_le_of_newScope (h : s.Gains w.store new) {origin : Origin} {parent scope : ScopeId} {w' : World}
    (opened : Eval.newScope origin parent w = .ok scope w') : s.scopes.size ≤ scope.index := by
  cases opened
  exact h.size_le

theorem newClosure (h : s.Gains w.store new) (f : Function) (scope : ScopeId) :
    Adds s new (Eval.newClosure f scope w) :=
  h.of_scopes_eq rfl

theorem newObject (h : s.Gains w.store new) : Adds s new (Eval.newObject w) := h.of_scopes_eq rfl

theorem newIdentity (h : s.Gains w.store new) : Adds s new (Eval.newIdentity w) := h.of_scopes_eq rfl

theorem setField (h : s.Gains w.store new) (object : ObjectId) (name : String) (value : Value) :
    Adds s new (Eval.setField object name value w) :=
  h.of_scopes_eq rfl

/-- A bound method gets a scope of its own for `this`. -/
theorem bindMethod (h : s.Gains w.store new) (c : Class) (method : Function) (receiver : Value) :
    Adds s new (Eval.bind c method receiver w) := by
  refine bind (newScope h (.binding method) c.scope) fun scope w₁ opened h₁ => ?_
  refine bind (define h₁ receiver (.inl (size_le_of_newScope h opened))) fun _ w₂ _ h₂ => ?_
  exact newClosure h₂ method scope

theorem property (h : s.Gains w.store new) (object : Value) (name : String) :
    Adds s new (Eval.property object name w) := by
  cases object with
  | object c id =>
      simp only [Eval.property, Eval.get_bind]
      cases (w.store.fields id)[name]? with
      | some value => exact h
      | none =>
          cases c.methods[name]? with
          | none => exact h
          | some method => exact bind (bindMethod h c method _) fun _ _ _ h' => h'
  | _ => exact h

theorem callBuiltin (h : s.Gains w.store new) (f : Builtin) (args : List Value) :
    Adds s new (Eval.callBuiltin f args w) := by
  cases f with
  | print =>
      refine bind ?_ fun _ _ _ h' => h'
      simp only [Eval.emit]
      split
      · exact h.of_scopes_eq rfl
      · exact h.of_scopes_eq rfl

end Adds

/-! ### Tasks -/

namespace Task

/-- The names that a task can add to a scope that is there already: those that its statements declare, in the
    scope in which they are executed. -/
def Declares : Task → ScopeId → String → Prop
  | .stmt st scope, other, name => other = scope ∧ name ∈ st.declared
  | .stmts ss scope, other, name => other = scope ∧ name ∈ Stmt.declaredOfAll ss
  | .loop _ body scope, other, name => other = scope ∧ name ∈ body.declared
  | _, _, _ => False

/-- What is to be shown of each bound. -/
def RunsAdd (find : Finder) (n : Nat) : Prop :=
  ∀ (t : Task) (w : World), Adds w.store t.Declares (t.run find n w)

variable {find : Finder} {n : Nat} {s : Store} {new : ScopeId → String → Prop} {w : World}

/-- A task as a part of another one. -/
theorem RunsAdd.part (ih : RunsAdd find n) (h : s.Gains w.store new) (t : Task)
    (counts : ∀ scope name, scope.index < s.scopes.size → t.Declares scope name → new scope name) :
    Adds s new (t.run find n w) :=
  h.trans (ih t w) counts

/-- A task that declares nothing as a part of another one. -/
theorem RunsAdd.silent (ih : RunsAdd find n) (h : s.Gains w.store new) (t : Task)
    (none : ∀ scope name, ¬t.Declares scope name) : Adds s new (t.run find n w) :=
  ih.part h t fun scope name _ hd => absurd hd (none scope name)

theorem RunsAdd.expr (ih : RunsAdd find n) (h : s.Gains w.store new) (e : Expr) (scope : ScopeId) :
    Adds s new (Evaluate.expr find n e scope w) :=
  ih.silent h (.expr e scope) fun _ _ => id

theorem RunsAdd.condition (ih : RunsAdd find n) (h : s.Gains w.store new) (e : Expr) (scope : ScopeId) :
    Adds s new (Evaluate.condition find n e scope w) :=
  ih.silent h (.condition e scope) fun _ _ => id

theorem RunsAdd.callClosure (ih : RunsAdd find n) (h : s.Gains w.store new) (c : Closure)
    (args : List Value) : Adds s new (Evaluate.callClosure find n c args w) :=
  ih.silent h (.callClosure c args) fun _ _ => id

/-- Statements that are executed in a scope which was not there at the beginning. -/
theorem RunsAdd.inner (ih : RunsAdd find n) (h : s.Gains w.store new) (ss : List Stmt) {inner : ScopeId}
    (later : s.scopes.size ≤ inner.index) : Adds s new (Evaluate.stmts find n ss inner w) := by
  apply ih.part h (.stmts ss inner)
  rintro scope name hlt ⟨rfl, _⟩
  exact absurd hlt (Nat.not_lt.2 later)

theorem expr_adds (ih : RunsAdd find n) (e : Expr) (scope : ScopeId) (w : World) :
    Adds w.store new (Evaluate.expr find (n + 1) e scope w) := by
  have start : w.store.Gains w.store new := .refl _
  cases e with
  | number value => exact start
  | text value => exact start
  | bool value => exact start
  | var name id => exact .read start scope name id
  | this id => exact .read start scope "this" id
  | binary op l r =>
      refine .bind (ih.expr start l scope) fun a w₁ _ h₁ => ?_
      exact .bind (ih.expr h₁ r scope) fun b w₂ _ h₂ => .ofExcept h₂ _
  | logical op l r =>
      refine .bind (ih.silent start (.operand op l scope) fun _ _ => id) fun a w₁ _ h₁ => ?_
      cases hd : isDecided op a with
      | true =>
          simp only [if_true]
          exact h₁
      | false =>
          simp only [Bool.false_eq_true, if_false]
          exact .bind (ih.silent h₁ (.operand op r scope) fun _ _ => id) fun b w₂ _ h₂ => h₂
  | unary op e => exact .bind (ih.expr start e scope) fun a w₁ _ h₁ => .ofExcept h₁ _
  | member e name => exact .bind (ih.expr start e scope) fun a w₁ _ h₁ => .property h₁ a name
  | call e args =>
      refine .bind (ih.expr start e scope) fun f w₁ _ h₁ => ?_
      refine .bind (ih.silent h₁ (.exprs args scope) fun _ _ => id) fun values w₂ _ h₂ => ?_
      exact ih.silent h₂ (.call f values) fun _ _ => id
  | lambda f => exact .bind (.newClosure start f scope) fun c w₁ _ h₁ => h₁

theorem exprs_adds (ih : RunsAdd find n) (es : List Expr) (scope : ScopeId) (w : World) :
    Adds w.store new (Evaluate.exprs find (n + 1) es scope w) := by
  have start : w.store.Gains w.store new := .refl _
  cases es with
  | nil => exact start
  | cons e rest =>
      refine .bind (ih.expr start e scope) fun a w₁ _ h₁ => ?_
      exact .bind (ih.silent h₁ (.exprs rest scope) fun _ _ => id) fun values w₂ _ h₂ => h₂

theorem operand_adds (ih : RunsAdd find n) (op : LogicalOp) (e : Expr) (scope : ScopeId) (w : World) :
    Adds w.store new (Evaluate.operand find (n + 1) op e scope w) := by
  refine .bind (ih.expr (.refl _) e scope) fun v w₁ _ h₁ => ?_
  cases v <;> exact h₁

theorem condition_adds (ih : RunsAdd find n) (e : Expr) (scope : ScopeId) (w : World) :
    Adds w.store new (Evaluate.condition find (n + 1) e scope w) := by
  refine .bind (ih.expr (.refl _) e scope) fun v w₁ _ h₁ => ?_
  cases v <;> exact h₁

theorem call_adds (ih : RunsAdd find n) (callee : Value) (args : List Value) (w : World) :
    Adds w.store new (Evaluate.call find (n + 1) callee args w) := by
  have start : w.store.Gains w.store new := .refl _
  cases callee with
  | closure c => exact ih.callClosure start c args
  | builtin f identity => exact .callBuiltin start f args
  | classValue c =>
      refine .bind (.newObject start) fun object w₁ _ h₁ => ?_
      cases c.methods["init"]? with
      | none =>
          simp only
          split
          · exact h₁
          · exact h₁
      | some method =>
          refine .bind (.bindMethod h₁ c method _) fun bound w₂ _ h₂ => ?_
          exact .bind (ih.callClosure h₂ bound args) fun _ w₃ _ h₃ => h₃
  | _ => exact start

theorem callClosure_adds (ih : RunsAdd find n) (c : Closure) (args : List Value) (w : World) :
    Adds w.store new (Evaluate.callClosure find (n + 1) c args w) := by
  have start : w.store.Gains w.store new := .refl _
  simp only [Evaluate.callClosure]
  split
  · exact start
  · -- the scope of the call is new, so that nothing that is declared there counts
    refine .bind (.newScope start (.call c.function) c.scope) fun scope w₁ opened h₁ => ?_
    have later := Adds.size_le_of_newScope start opened
    refine .bind (.defineAll h₁ later _) fun _ w₂ _ h₂ => ?_
    refine .bind (ih.inner h₂ c.function.body later) fun completion w₃ _ h₃ => ?_
    cases completion <;> exact h₃

theorem stmt_adds (honest : find.Honest) (ih : RunsAdd find n) (st : Stmt) (scope : ScopeId) (w : World) :
    Adds w.store (Task.stmt st scope).Declares (Evaluate.stmt find (n + 1) st scope w) := by
  have start : w.store.Gains w.store (Task.stmt st scope).Declares := .refl _
  cases st with
  | expr e => exact .bind (ih.expr start e scope) fun v w₁ _ h₁ => h₁
  | declare name e =>
      refine .bind (ih.expr start e scope) fun v w₁ _ h₁ => ?_
      exact .bind (.define h₁ v (.inr ⟨rfl, List.mem_singleton_self name⟩)) fun _ w₂ _ h₂ => h₂
  | assign target e =>
      refine .bind (ih.expr start e scope) fun v w₁ _ h₁ => ?_
      exact .bind (.write honest h₁ scope target v) fun _ w₂ _ h₂ => h₂
  | update target op =>
      refine .bind (.read start scope target.name target.id) fun old w₁ _ h₁ => ?_
      refine .bind (.ofExcept h₁ _) fun v w₂ _ h₂ => ?_
      exact .bind (.write honest h₂ scope target v) fun _ w₃ _ h₃ => h₃
  | setMember object name e =>
      refine .bind (ih.expr start object scope) fun owner w₁ _ h₁ => ?_
      cases owner with
      | object c id =>
          refine .bind (ih.expr h₁ e scope) fun v w₂ _ h₂ => ?_
          exact .bind (.setField h₂ id name v) fun _ w₃ _ h₃ => h₃
      | _ => exact h₁
  | block body =>
      refine .bind (.newScope start (.block body) scope) fun inner w₁ opened h₁ => ?_
      exact ih.inner h₁ body (Adds.size_le_of_newScope start opened)
  | ifElse test thenBranch elseBranch =>
      refine .bind (ih.condition start test scope) fun truth w₁ _ h₁ => ?_
      cases truth with
      | true =>
          apply ih.part h₁ (.stmt thenBranch scope)
          rintro other name _ ⟨hsame, hname⟩
          cases elseBranch with
          | none => exact ⟨hsame, hname⟩
          | some branch => exact ⟨hsame, List.mem_append_left _ hname⟩
      | false =>
          cases elseBranch with
          | none => exact h₁
          | some branch =>
              apply ih.part h₁ (.stmt branch scope)
              rintro other name _ ⟨hsame, hname⟩
              exact ⟨hsame, List.mem_append_right _ hname⟩
  | whileLoop test body =>
      apply ih.part start (.loop test body scope)
      exact fun _ _ _ => id
  | function f =>
      refine .bind (.newClosure start f scope) fun c w₁ _ h₁ => ?_
      have declared : (Task.stmt (.function f) scope).Declares scope f.displayName :=
        ⟨rfl, List.mem_singleton_self _⟩
      exact .bind (.define h₁ (.closure c) (.inr declared)) fun _ w₂ _ h₂ => h₂
  | ret value =>
      cases value with
      | none => exact start
      | some e => exact .bind (ih.expr start e scope) fun v w₁ _ h₁ => h₁
  | classDecl name methods =>
      have declared : (Task.stmt (.classDecl name methods) scope).Declares scope name :=
        ⟨rfl, List.mem_singleton_self name⟩
      refine .bind (.define start .void (.inr declared)) fun _ w₁ _ h₁ => ?_
      refine .bind (.newIdentity h₁) fun identity w₂ _ h₂ => ?_
      exact .bind (.define h₂ _ (.inr declared)) fun _ w₃ _ h₃ => h₃

theorem stmts_adds (ih : RunsAdd find n) (ss : List Stmt) (scope : ScopeId) (w : World) :
    Adds w.store (Task.stmts ss scope).Declares (Evaluate.stmts find (n + 1) ss scope w) := by
  cases ss with
  | nil => exact .refl _
  | cons st rest =>
      apply Adds.bind (ih.part (.refl _) (.stmt st scope) _)
      · intro completion w₁ _ h₁
        cases completion with
        | returned v => exact h₁
        | normal v =>
            apply ih.part h₁ (.stmts rest scope)
            rintro other name _ ⟨hsame, hname⟩
            exact ⟨hsame, List.mem_append_right _ hname⟩
      · rintro other name _ ⟨hsame, hname⟩
        exact ⟨hsame, List.mem_append_left _ hname⟩

theorem loop_adds (ih : RunsAdd find n) (test : Expr) (body : Stmt) (scope : ScopeId) (w : World) :
    Adds w.store (Task.loop test body scope).Declares (Evaluate.loop find (n + 1) test body scope w) := by
  refine .bind (ih.condition (.refl _) test scope) fun truth w₁ _ h₁ => ?_
  cases truth with
  | false => exact h₁
  | true =>
      refine .bind (ih.part h₁ (.stmt body scope) fun _ _ _ => id) fun completion w₂ _ h₂ => ?_
      cases completion with
      | returned v => exact h₂
      | normal v => exact ih.part h₂ (.loop test body scope) fun _ _ _ => id

/-- Whatever a task does, the scopes that were there gain only names that the task declares in them. -/
theorem run_adds (honest : find.Honest) (n : Nat) : RunsAdd find n := by
  induction n with
  | zero =>
      intro t w
      cases t with
      | call callee args => cases callee <;> exact .refl _
      | _ => exact .refl _
  | succ n ih =>
      intro t w
      cases t with
      | expr e scope => exact expr_adds ih e scope w
      | exprs es scope => exact exprs_adds ih es scope w
      | operand op e scope => exact operand_adds ih op e scope w
      | condition e scope => exact condition_adds ih e scope w
      | call callee args => exact call_adds ih callee args w
      | callClosure c args => exact callClosure_adds ih c args w
      | stmt st scope => exact stmt_adds honest ih st scope w
      | stmts ss scope => exact stmts_adds ih ss scope w
      | loop test body scope => exact loop_adds ih test body scope w

end Task

/-- Declarations stay in their scope, also where the evaluation fails. An expression leaves the names of every
    scope that is there as they are. A statement leaves those of every scope but its own as they are, and
    adds to its own only names that it declares there. No name is lost, and no scope changes its place. -/
theorem declarations_stay_in_scope (globals : ScopeId) (a : Annotations) (n : Nat) (scope : ScopeId)
    (w : World) :
    (∀ e, let t := (endWorld (expr (.lexical globals a) n e scope w)).store
      ∀ other : ScopeId, other.index < w.store.scopes.size →
        t.parent? other = w.store.parent? other ∧
        ∀ name, t.defines other name = w.store.defines other name) ∧
    ∀ st, let t := (endWorld (stmt (.lexical globals a) n st scope w)).store
      ∀ other : ScopeId, other.index < w.store.scopes.size →
        t.parent? other = w.store.parent? other ∧
        (other ≠ scope → ∀ name, t.defines other name = w.store.defines other name) ∧
        ∀ name, (w.store.defines other name = true → t.defines other name = true) ∧
          (t.defines other name = true → w.store.defines other name = true ∨ name ∈ st.declared) := by
  have hruns : Task.RunsAdd (.lexical globals a) n := Task.run_adds (Finder.honest_lexical globals a) n
  constructor
  · intro e t other hlt
    have hgains := hruns (.expr e scope) w
    refine ⟨hgains.parent hlt, fun name => Bool.eq_iff_iff.2 ⟨fun hdefined => ?_, hgains.kept⟩⟩
    exact (hgains.gained hlt hdefined).resolve_right id
  · intro st t other hlt
    have hgains := hruns (.stmt st scope) w
    refine ⟨hgains.parent hlt, fun hother name => ?_, fun name => ⟨hgains.kept, fun hdefined => ?_⟩⟩
    · refine Bool.eq_iff_iff.2 ⟨fun hdefined => ?_, hgains.kept⟩
      exact (hgains.gained hlt hdefined).resolve_right fun hnew => hother hnew.1
    · exact (hgains.gained hlt hdefined).imp_right And.right

end Evaluate

end Kiln
