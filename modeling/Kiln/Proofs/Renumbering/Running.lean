/-
Module: Kiln.Proofs.Renumbering.Running
Purpose: Runs of a program with other ids. A run looks at an id only to find the distance of a reference, so two
  runs with tables that give the same distances do the same: they pass through the same worlds, up to the ids in
  the bodies of functions, and end with the same values or the same failure.
Main exports: Eval.Commutes, Commutes.bind, Finder.Renumbers, Evaluate.runs_commute,
  Evaluate.program_renumber
-/
import Kiln.Eval.Evaluate
import Kiln.Proofs.Renumbering.Scoping
import Kiln.Proofs.Renumbering.Stores

namespace Kiln

/-- How a statement ends, with other ids. -/
def Completion.renumber (f : NodeId → NodeId) : Completion → Completion
  | .normal v => .normal (v.renumber f)
  | .returned v => .returned (v.renumber f)

theorem Completion.value_renumber (f : NodeId → NodeId) (c : Completion) :
    (c.renumber f).value = c.value.renumber f := by
  cases c <;> rfl

/-- The second way to find variables finds under other ids what the first finds. -/
def Finder.Renumbers (f : NodeId → NodeId) (find find' : Finder) : Prop :=
  ∀ s scope name id, find' (Store.renumber f s) scope name (f id) = find s scope name id

/-- Tables with the same distances under other ids lead to the same scopes. -/
theorem Finder.renumbers_lexical {f : NodeId → NodeId} {a a' : Annotations} (h : a.Renumbers f a')
    (globals : ScopeId) : Finder.Renumbers f (.lexical globals a) (.lexical globals a') := by
  intro s scope name id
  simp only [Finder.lexical, h.get?_eq, Store.ownerAt?_renumber, Store.owner?_renumber]

namespace Eval

variable {α β : Type} {f : NodeId → NodeId}

/-- An outcome with other ids, where `g` renumbers what the step gives. -/
def renumbered (f : NodeId → NodeId) (g : α → α) :
    EStateM.Result Halt World α → EStateM.Result Halt World α
  | .ok a w => .ok (g a) (w.renumber f)
  | .error e w => .error (e.renumber f) (w.renumber f)

/-- In worlds with other ids, the second step does what the first does. -/
def Commutes (f : NodeId → NodeId) (g : α → α) (p p' : Eval α) : Prop :=
  ∀ w, p' (World.renumber f w) = renumbered f g (p w)

namespace Commutes

variable {g : α → α} {h : β → β}

theorem pure (a : α) : Commutes f g (pure a) (pure (g a)) := fun _ => rfl

theorem get : Commutes f (World.renumber f) get get := fun _ => rfl

theorem outOfFuel : Commutes f g (throw .outOfFuel) (throw .outOfFuel) := fun _ => rfl

theorem fail (cause : RuntimeError) : Commutes f g (fail cause) (fail (cause.renumber f)) :=
  fun _ => rfl

theorem bind {p p' : Eval α} {q q' : α → Eval β} (hp : Commutes f g p p')
    (hq : ∀ a, Commutes f h (q a) (q' (g a))) : Commutes f h (p >>= q) (p' >>= q') := by
  intro w
  simp only [Bind.bind, EStateM.bind, hp w]
  cases p w with
  | ok a u => exact hq a u
  | error e u => rfl

/-- A step whose result is only wrapped. -/
theorem map {p p' : Eval α} {wrap wrap' : α → β} (hp : Commutes f g p p')
    (hwrap : ∀ a, h (wrap a) = wrap' (g a)) :
    Commutes f h (do return wrap (← p)) (do return wrap' (← p')) := by
  apply hp.bind
  intro a
  rw [← hwrap a]
  exact pure (wrap a)

/-- A result that does not depend on the world, and whose failures name no reference. -/
theorem ofExcept {r : Except RuntimeError α} (hr : ∀ cause, r = .error cause → cause.renumber f = cause) :
    Commutes f g (ofExcept r) (ofExcept (r.map g)) := by
  cases r with
  | ok a => exact pure a
  | error cause =>
      have hfail : Commutes f g (Eval.fail cause) (Eval.fail (cause.renumber f)) := fail cause
      rw [hr cause rfl] at hfail
      exact hfail

/-- No operator fails for want of a variable. -/
theorem renumber_of_binary_eq_error {op : BinaryOp} {v u : Value} {cause : RuntimeError}
    (h : Operators.binary op v u = .error cause) : cause.renumber f = cause := by
  unfold Operators.binary at h
  split at h
  case h_4 =>
    unfold Operators.arithmetic at h
    split at h
    case h_4 | h_5 =>
      split at h
      · cases h
        rfl
      · cases h
    all_goals cases h
  case h_5 =>
    cases h
    rfl
  all_goals cases h

theorem binary (op : BinaryOp) (v u : Value) :
    Commutes f (Value.renumber f) (Eval.ofExcept (Operators.binary op v u))
      (Eval.ofExcept (Operators.binary op (v.renumber f) (u.renumber f))) := by
  rw [Operators.binary_renumber]
  exact ofExcept fun _ => renumber_of_binary_eq_error

theorem unary (op : UnaryOp) (v : Value) :
    Commutes f (Value.renumber f) (Eval.ofExcept (Operators.unary op v))
      (Eval.ofExcept (Operators.unary op (v.renumber f))) := by
  rw [Operators.unary_renumber]
  apply ofExcept
  intro cause hcause
  cases op <;> cases v <;> cases hcause <;> rfl

/-! ### Variables -/

variable {find find' : Finder}

theorem read (hfind : Finder.Renumbers f find find') (scope : ScopeId) (name : String) (id : NodeId) :
    Commutes f (Value.renumber f) (read find scope name id) (read find' scope name (f id)) := by
  intro w
  have hworld : (w.renumber f).store = w.store.renumber f := rfl
  simp only [Eval.read, hworld, hfind w.store scope name id, Store.cell?_renumber]
  cases find w.store scope name id with
  | none => rfl
  | some target =>
      simp only [Option.bind_some]
      cases w.store.cell? target name with
      | none => rfl
      | some v => rfl

theorem write (hfind : Finder.Renumbers f find find') (scope : ScopeId) (target : Variable)
    (value : Value) :
    Commutes f id (write find scope target value)
      (write find' scope (target.renumber f) (value.renumber f)) := by
  intro w
  have hworld : (w.renumber f).store = w.store.renumber f := rfl
  simp only [Eval.write, Variable.renumber, hworld, hfind w.store scope target.name target.id]
  cases find w.store scope target.name target.id with
  | none => rfl
  | some owner =>
      simp only [← Store.put_renumber]
      rfl

theorem define (scope : ScopeId) (name : String) (value : Value) :
    Commutes f id (define scope name value) (define scope name (value.renumber f)) := by
  intro w
  have hput := w.store.put_renumber f scope name value
  exact congrArg (fun s => EStateM.Result.ok () { w with store := s }) hput.symm

theorem defineAll (scope : ScopeId) (names : List String) (values : List Value) :
    Commutes f id (defineAll scope (names.zip values))
      (defineAll scope (names.zip (values.map (Value.renumber f)))) := by
  induction names generalizing values with
  | nil => exact pure ()
  | cons name rest ih =>
      cases values with
      | nil => exact pure ()
      | cons value values => exact bind (define scope name value) fun _ => ih values

/-! ### Scopes, objects and functions -/

theorem newScope (origin : Origin) (outer : ScopeId) :
    Commutes f id (newScope origin outer) (newScope (origin.renumber f) outer) := by
  intro w
  have hnew := w.store.newScope_renumber f origin (some outer)
  exact congrArg (fun new => EStateM.Result.ok new.1 { w with store := new.2 }) hnew

theorem newObject : Commutes f id newObject newObject := by
  intro w
  have hnew := w.store.newObject_renumber f
  exact congrArg (fun new => EStateM.Result.ok new.1 { w with store := new.2 }) hnew

theorem setField (object : ObjectId) (name : String) (value : Value) :
    Commutes f id (setField object name value) (setField object name (value.renumber f)) := by
  intro w
  have hset := w.store.setField_renumber f object name value
  exact congrArg (fun s => EStateM.Result.ok () { w with store := s }) hset.symm

theorem newIdentity : Commutes f id newIdentity newIdentity := fun _ => rfl

theorem newClosure (function : Function) (scope : ScopeId) :
    Commutes f (Closure.renumber f) (newClosure function scope)
      (newClosure (function.renumber f) scope) :=
  map newIdentity fun _ => rfl

/-- A method that is bound to its receiver. -/
theorem bindMethod (c : Class) (method : Function) (receiver : Value) :
    Commutes f (Closure.renumber f) (Eval.bind c method receiver)
      (Eval.bind (c.renumber f) (method.renumber f) (receiver.renumber f)) := by
  apply bind (newScope (.binding method) c.scope)
  intro scope
  apply bind (define scope "this" receiver)
  intro _
  exact newClosure method scope

theorem property (object : Value) (name : String) :
    Commutes f (Value.renumber f) (property object name) (property (object.renumber f) name) := by
  cases object with
  | object c id =>
      apply bind get
      intro w
      have hfields : ((w.renumber f).store.fields id)[name]? =
          (w.store.fields id)[name]?.map (Value.renumber f) := by
        rw [← Cells.getElem?_renumber, ← Store.fields_renumber]
        rfl
      simp only [hfields, Class.getElem?_methods_renumber]
      cases (w.store.fields id)[name]? with
      | some value => exact pure value
      | none =>
          cases c.methods[name]? with
          | none => exact fail _
          | some method => exact map (bindMethod c method (.object c id)) fun _ => rfl
  | _ => exact fail _

theorem callBuiltin (b : Builtin) (args : List Value) :
    Commutes f (Value.renumber f) (callBuiltin b args)
      (callBuiltin b (args.map (Value.renumber f))) := by
  cases b
  have hshown : (args.map (Value.renumber f)).map Value.display = args.map Value.display := by
    rw [List.map_map]
    exact List.map_congr_left fun v _ => v.display_renumber f
  have hemit : ∀ text, Commutes f id (emit "print" text) (emit "print" text) := by
    intro text w
    unfold Eval.emit
    by_cases hcomplete : w.sink.takes text.toUTF8.size = true
    · simp only [World.renumber, hcomplete, if_true]
      rfl
    · simp only [World.renumber, hcomplete]
      rfl
  simp only [Eval.callBuiltin, hshown]
  exact bind (hemit _) fun _ => pure Value.void

end Commutes

end Eval

/-! ### Evaluation -/

namespace Evaluate

open Eval

variable {f : NodeId → NodeId} {find find' : Finder} {n : Nat}

/-- Within one bound, each part of a program runs with other ids as it does without. -/
structure RunsCommute (f : NodeId → NodeId) (find find' : Finder) (n : Nat) : Prop where
  expr : ∀ e scope, Commutes f (Value.renumber f) (expr find n e scope)
    (expr find' n (e.renumber f) scope)
  exprs : ∀ es scope, Commutes f (List.map (Value.renumber f)) (exprs find n es scope)
    (exprs find' n (Expr.renumberAll f es) scope)
  operand : ∀ op e scope, Commutes f id (operand find n op e scope)
    (operand find' n op (e.renumber f) scope)
  condition : ∀ e scope, Commutes f id (condition find n e scope)
    (condition find' n (e.renumber f) scope)
  call : ∀ v args, Commutes f (Value.renumber f) (call find n v args)
    (call find' n (v.renumber f) (args.map (Value.renumber f)))
  callClosure : ∀ c args, Commutes f (Value.renumber f) (callClosure find n c args)
    (callClosure find' n (c.renumber f) (args.map (Value.renumber f)))
  stmt : ∀ s scope, Commutes f (Completion.renumber f) (stmt find n s scope)
    (stmt find' n (s.renumber f) scope)
  stmts : ∀ ss scope, Commutes f (Completion.renumber f) (stmts find n ss scope)
    (stmts find' n (Stmt.renumberAll f ss) scope)
  loop : ∀ test body scope, Commutes f (Completion.renumber f) (loop find n test body scope)
    (loop find' n (test.renumber f) (body.renumber f) scope)

namespace RunsCommute

theorem zero : RunsCommute f find find' 0 := by
  constructor <;> intros <;> exact Commutes.outOfFuel

theorem expr_succ (hfind : Finder.Renumbers f find find') (ih : RunsCommute f find find' n) (e : Expr)
    (scope : ScopeId) : Commutes f (Value.renumber f) (Evaluate.expr find (n + 1) e scope)
      (Evaluate.expr find' (n + 1) (e.renumber f) scope) := by
  cases e with
  | number value => exact Commutes.pure (Value.number value)
  | text value => exact Commutes.pure (Value.text value)
  | bool value => exact Commutes.pure (Value.bool value)
  | var name id => exact Commutes.read hfind scope name id
  | this id => exact Commutes.read hfind scope "this" id
  | binary op left right =>
      apply Commutes.bind (ih.expr left scope)
      intro a
      apply Commutes.bind (ih.expr right scope)
      intro b
      exact Commutes.binary op a b
  | logical op left right =>
      apply Commutes.bind (ih.operand op left scope)
      intro a
      simp only [id_eq]
      cases isDecided op a with
      | true => exact Commutes.pure (Value.bool a)
      | false => exact Commutes.map (ih.operand op right scope) fun _ => rfl
  | unary op operand => exact Commutes.bind (ih.expr operand scope) (Commutes.unary op)
  | member object name =>
      apply Commutes.bind (ih.expr object scope)
      intro receiver
      exact Commutes.property receiver name
  | call callee args =>
      apply Commutes.bind (ih.expr callee scope)
      intro v
      apply Commutes.bind (ih.exprs args scope)
      intro values
      exact ih.call v values
  | lambda function => exact Commutes.map (.newClosure function scope) fun _ => rfl

theorem exprs_succ (ih : RunsCommute f find find' n) (es : List Expr) (scope : ScopeId) :
    Commutes f (List.map (Value.renumber f)) (Evaluate.exprs find (n + 1) es scope)
      (Evaluate.exprs find' (n + 1) (Expr.renumberAll f es) scope) := by
  cases es with
  | nil => exact Commutes.pure []
  | cons e rest =>
      apply Commutes.bind (ih.expr e scope)
      intro value
      exact Commutes.map (ih.exprs rest scope) fun _ => rfl

theorem operand_succ (ih : RunsCommute f find find' n) (op : LogicalOp) (e : Expr) (scope : ScopeId) :
    Commutes f id (Evaluate.operand find (n + 1) op e scope)
      (Evaluate.operand find' (n + 1) op (e.renumber f) scope) := by
  apply Commutes.bind (ih.expr e scope)
  intro value
  cases value with
  | bool b => exact Commutes.pure b
  | _ => exact Commutes.fail _

theorem condition_succ (ih : RunsCommute f find find' n) (e : Expr) (scope : ScopeId) :
    Commutes f id (Evaluate.condition find (n + 1) e scope)
      (Evaluate.condition find' (n + 1) (e.renumber f) scope) := by
  apply Commutes.bind (ih.expr e scope)
  intro value
  cases value with
  | bool b => exact Commutes.pure b
  | _ => exact Commutes.fail _

theorem call_succ (ih : RunsCommute f find find' n) (v : Value) (args : List Value) :
    Commutes f (Value.renumber f) (Evaluate.call find (n + 1) v args)
      (Evaluate.call find' (n + 1) (v.renumber f) (args.map (Value.renumber f))) := by
  cases v with
  | closure c => exact ih.callClosure c args
  | builtin b identity => exact Commutes.callBuiltin b args
  | classValue c =>
      apply Commutes.bind .newObject
      intro object
      simp only [Class.getElem?_methods_renumber]
      cases c.methods["init"]? with
      | some method =>
          apply Commutes.bind (.bindMethod c method (.object c object))
          intro bound
          apply Commutes.bind (ih.callClosure bound args)
          intro _
          exact Commutes.pure (Value.object c object)
      | none =>
          simp only [Option.map_none, List.isEmpty_map, List.length_map]
          cases args.isEmpty with
          | true => exact Commutes.pure (Value.object c object)
          | false => exact Commutes.fail _
  | _ => exact Commutes.fail _

theorem callClosure_succ (ih : RunsCommute f find find' n) (c : Closure) (args : List Value) :
    Commutes f (Value.renumber f) (Evaluate.callClosure find (n + 1) c args)
      (Evaluate.callClosure find' (n + 1) (c.renumber f) (args.map (Value.renumber f))) := by
  simp only [Evaluate.callClosure, Closure.renumber, Function.paramNames_renumber,
    Function.displayName_renumber, Function.body_renumber, List.length_map]
  by_cases hlength : args.length = c.function.paramNames.length
  · simp only [ne_eq, hlength, not_true_eq_false, if_false]
    apply Commutes.bind (.newScope (.call c.function) c.scope)
    intro scope
    apply Commutes.bind (.defineAll scope c.function.paramNames args)
    intro _
    apply Commutes.bind (ih.stmts c.function.body scope)
    intro completion
    cases completion with
    | normal _ => exact Commutes.pure Value.void
    | returned value => exact Commutes.pure value
  · simp only [ne_eq, hlength, not_false_eq_true, if_true]
    exact Commutes.fail _

theorem stmt_succ (hfind : Finder.Renumbers f find find') (ih : RunsCommute f find find' n) (s : Stmt)
    (scope : ScopeId) : Commutes f (Completion.renumber f) (Evaluate.stmt find (n + 1) s scope)
      (Evaluate.stmt find' (n + 1) (s.renumber f) scope) := by
  cases s with
  | expr e => exact Commutes.map (ih.expr e scope) fun _ => rfl
  | declare name e =>
      apply Commutes.bind (ih.expr e scope)
      intro value
      exact Commutes.bind (.define scope name value) fun _ => .pure (Completion.normal value)
  | assign target e =>
      apply Commutes.bind (ih.expr e scope)
      intro value
      exact Commutes.bind (.write hfind scope target value) fun _ => .pure (Completion.normal value)
  | update target op =>
      apply Commutes.bind (.read hfind scope target.name target.id)
      intro old
      apply Commutes.bind (.binary op.binary old (.number 1))
      intro new
      exact Commutes.bind (.write hfind scope target new) fun _ => .pure (Completion.normal .void)
  | setMember object name e =>
      apply Commutes.bind (ih.expr object scope)
      intro receiver
      cases receiver with
      | object c id =>
          apply Commutes.bind (ih.expr e scope)
          intro value
          exact Commutes.bind (.setField id name value) fun _ => .pure (Completion.normal .void)
      | _ => exact Commutes.fail _
  | block body =>
      apply Commutes.bind (.newScope (.block body) scope)
      intro inner
      exact ih.stmts body inner
  | ifElse test thenBranch elseBranch =>
      cases elseBranch with
      | none =>
          apply Commutes.bind (ih.condition test scope)
          intro holds
          cases holds with
          | true => exact ih.stmt thenBranch scope
          | false => exact Commutes.pure (Completion.normal .void)
      | some elseBranch =>
          apply Commutes.bind (ih.condition test scope)
          intro holds
          cases holds with
          | true => exact ih.stmt thenBranch scope
          | false => exact ih.stmt elseBranch scope
  | whileLoop test body => exact ih.loop test body scope
  | function g =>
      apply Commutes.bind (.newClosure g scope)
      intro c
      simp only [Function.displayName_renumber]
      exact Commutes.bind (.define scope g.displayName (.closure c)) fun _ =>
        .pure (Completion.normal .void)
  | ret value =>
      cases value with
      | none => exact Commutes.pure (Completion.returned .void)
      | some e => exact Commutes.map (ih.expr e scope) fun _ => rfl
  | classDecl name methods =>
      apply Commutes.bind (.define scope name .void)
      intro _
      apply Commutes.bind .newIdentity
      intro identity
      have hclass := Class.ofFunctions_renumber f identity name methods scope
      have hdefine := Commutes.define (f := f) scope name
        (.classValue (.ofFunctions identity name methods scope))
      rw [Value.renumber, hclass] at hdefine
      exact Commutes.bind hdefine fun _ => .pure (Completion.normal .void)

theorem stmts_succ (ih : RunsCommute f find find' n) (ss : List Stmt) (scope : ScopeId) :
    Commutes f (Completion.renumber f) (Evaluate.stmts find (n + 1) ss scope)
      (Evaluate.stmts find' (n + 1) (Stmt.renumberAll f ss) scope) := by
  cases ss with
  | nil => exact Commutes.pure (Completion.normal .void)
  | cons s rest =>
      apply Commutes.bind (ih.stmt s scope)
      intro completion
      cases completion with
      | normal _ => exact ih.stmts rest scope
      | returned value => exact Commutes.pure (Completion.returned value)

theorem loop_succ (ih : RunsCommute f find find' n) (test : Expr) (body : Stmt) (scope : ScopeId) :
    Commutes f (Completion.renumber f) (Evaluate.loop find (n + 1) test body scope)
      (Evaluate.loop find' (n + 1) (test.renumber f) (body.renumber f) scope) := by
  apply Commutes.bind (ih.condition test scope)
  intro holds
  cases holds with
  | false => exact Commutes.pure (Completion.normal .void)
  | true =>
      apply Commutes.bind (ih.stmt body scope)
      intro completion
      cases completion with
      | normal _ => exact ih.loop test body scope
      | returned value => exact Commutes.pure (Completion.returned value)

end RunsCommute

/-- Within every bound, each part of a program runs with other ids as it does without. -/
theorem runs_commute (hfind : Finder.Renumbers f find find') (n : Nat) : RunsCommute f find find' n := by
  induction n with
  | zero => exact .zero
  | succ n ih =>
      exact {
        expr := ih.expr_succ hfind
        exprs := ih.exprs_succ
        operand := ih.operand_succ
        condition := ih.condition_succ
        call := ih.call_succ
        callClosure := ih.callClosure_succ
        stmt := ih.stmt_succ hfind
        stmts := ih.stmts_succ
        loop := ih.loop_succ }

/-- A program with other ids ends in the same world, up to ids, with the same values or the same failure on the
    same line. -/
theorem program_renumber (hfind : Finder.Renumbers f find find') (fuel : Nat) (scope : ScopeId)
    (p : Program) (w : World) :
    program find' fuel scope (p.renumber f) (w.renumber f) =
      match program find fuel scope p w with
      | .ok values u => .ok (values.map (Value.renumber f)) (u.renumber f)
      | .error e u => .error ⟨e.line, e.value.renumber f⟩ (u.renumber f) := by
  induction p generalizing w with
  | nil => rfl
  | cons node rest ih =>
      have hnode := (runs_commute hfind fuel).stmt node.value scope w
      simp only [Program.renumber, List.map_cons, program, Bind.bind, EStateM.bind,
        EStateM.adaptExcept, hnode]
      cases stmt find fuel node.value scope w with
      | error e u => rfl
      | ok completion u =>
          have hrest := ih u
          rw [Program.renumber] at hrest
          simp only [renumbered, hrest]
          cases program find fuel scope rest u with
          | error e u' => rfl
          | ok values u' =>
              simp only [Completion.value_renumber]
              rfl

end Evaluate

end Kiln
