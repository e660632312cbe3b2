/-
Module: Kiln.Proofs.Evaluation.Visits
Purpose: What happens inside a run. The evaluator works on tasks, and each task enters smaller ones in worlds
  that earlier ones have left behind; on the way it comes to references, whose variables it looks for.
  These visits are all that a run takes from its way of finding variables: two ways that agree at every
  visit give the same run.
Main exports: Evaluate.Task, Task.run, Task.Enters, Visit, Task.Looks, Task.Visits, ProgramVisits, Agree,
  Task.run_agree, program_agree
-/
import Kiln.Eval.Evaluate

namespace Kiln.Evaluate

open Eval

/-- What the evaluator can be asked to do. -/
inductive Task where
  | expr (e : Expr) (scope : ScopeId)
  | exprs (es : List Expr) (scope : ScopeId)
  | operand (op : LogicalOp) (e : Expr) (scope : ScopeId)
  | condition (e : Expr) (scope : ScopeId)
  | call (callee : Value) (args : List Value)
  | callClosure (c : Closure) (args : List Value)
  | stmt (s : Stmt) (scope : ScopeId)
  | stmts (ss : List Stmt) (scope : ScopeId)
  | loop (test : Expr) (body : Stmt) (scope : ScopeId)

namespace Task

/-- What a task gives when it succeeds. -/
def Result : Task → Type
  | .expr _ _ | .call _ _ | .callClosure _ _ => Value
  | .exprs _ _ => List Value
  | .operand _ _ _ | .condition _ _ => Bool
  | .stmt _ _ | .stmts _ _ | .loop _ _ _ => Completion

/-- Does a task within a bound. -/
def run (find : Finder) (n : Nat) : (t : Task) → Eval t.Result
  | .expr e scope => Evaluate.expr find n e scope
  | .exprs es scope => Evaluate.exprs find n es scope
  | .operand op e scope => Evaluate.operand find n op e scope
  | .condition e scope => Evaluate.condition find n e scope
  | .call callee args => Evaluate.call find n callee args
  | .callClosure c args => Evaluate.callClosure find n c args
  | .stmt s scope => Evaluate.stmt find n s scope
  | .stmts ss scope => Evaluate.stmts find n ss scope
  | .loop test body scope => Evaluate.loop find n test body scope

/-- A task that is begun in the first world with the bound `n + 1` enters the second task, in the second
    world and with the bound `n`. -/
inductive Enters (find : Finder) (n : Nat) : Task → World → Task → World → Prop where
  | left {op : BinaryOp} {l r : Expr} {scope : ScopeId} {w : World} :
      Enters find n (.expr (.binary op l r) scope) w (.expr l scope) w
  | right {op : BinaryOp} {l r : Expr} {scope : ScopeId} {w w' : World} {a : Value}
      (done : Evaluate.expr find n l scope w = .ok a w') :
      Enters find n (.expr (.binary op l r) scope) w (.expr r scope) w'
  | firstOperand {op : LogicalOp} {l r : Expr} {scope : ScopeId} {w : World} :
      Enters find n (.expr (.logical op l r) scope) w (.operand op l scope) w
  | secondOperand {op : LogicalOp} {l r : Expr} {scope : ScopeId} {w w' : World} {a : Bool}
      (done : Evaluate.operand find n op l scope w = .ok a w')
      (undecided : isDecided op a = false) :
      Enters find n (.expr (.logical op l r) scope) w (.operand op r scope) w'
  | operand {op : UnaryOp} {e : Expr} {scope : ScopeId} {w : World} :
      Enters find n (.expr (.unary op e) scope) w (.expr e scope) w
  | object {e : Expr} {name : String} {scope : ScopeId} {w : World} :
      Enters find n (.expr (.member e name) scope) w (.expr e scope) w
  | callee {e : Expr} {args : List Expr} {scope : ScopeId} {w : World} :
      Enters find n (.expr (.call e args) scope) w (.expr e scope) w
  | args {e : Expr} {args : List Expr} {scope : ScopeId} {w w' : World} {f : Value}
      (done : Evaluate.expr find n e scope w = .ok f w') :
      Enters find n (.expr (.call e args) scope) w (.exprs args scope) w'
  | call {e : Expr} {args : List Expr} {scope : ScopeId} {w w' w'' : World} {f : Value}
      {values : List Value} (done : Evaluate.expr find n e scope w = .ok f w')
      (done' : Evaluate.exprs find n args scope w' = .ok values w'') :
      Enters find n (.expr (.call e args) scope) w (.call f values) w''
  | first {e : Expr} {rest : List Expr} {scope : ScopeId} {w : World} :
      Enters find n (.exprs (e :: rest) scope) w (.expr e scope) w
  | rest {e : Expr} {rest : List Expr} {scope : ScopeId} {w w' : World} {a : Value}
      (done : Evaluate.expr find n e scope w = .ok a w') :
      Enters find n (.exprs (e :: rest) scope) w (.exprs rest scope) w'
  | truth {op : LogicalOp} {e : Expr} {scope : ScopeId} {w : World} :
      Enters find n (.operand op e scope) w (.expr e scope) w
  | test {e : Expr} {scope : ScopeId} {w : World} :
      Enters find n (.condition e scope) w (.expr e scope) w
  | closure {c : Closure} {args : List Value} {w : World} :
      Enters find n (.call (.closure c) args) w (.callClosure c args) w
  | init {c : Class} {args : List Value} {method : Function} {w w' w'' : World} {object : ObjectId}
      {bound : Closure} (known : c.methods["init"]? = some method)
      (created : newObject w = .ok object w')
      (done : Eval.bind c method (.object c object) w' = .ok bound w'') :
      Enters find n (.call (.classValue c) args) w (.callClosure bound args) w''
  | body {c : Closure} {args : List Value} {scope : ScopeId} {w w' w'' : World}
      (arity : args.length = c.function.paramNames.length)
      (opened : newScope (.call c.function) c.scope w = .ok scope w')
      (done : defineAll scope (c.function.paramNames.zip args) w' = .ok () w'') :
      Enters find n (.callClosure c args) w (.stmts c.function.body scope) w''
  | value {e : Expr} {scope : ScopeId} {w : World} :
      Enters find n (.stmt (.expr e) scope) w (.expr e scope) w
  | initial {name : String} {e : Expr} {scope : ScopeId} {w : World} :
      Enters find n (.stmt (.declare name e) scope) w (.expr e scope) w
  | assigned {target : Variable} {e : Expr} {scope : ScopeId} {w : World} :
      Enters find n (.stmt (.assign target e) scope) w (.expr e scope) w
  | owner {object e : Expr} {name : String} {scope : ScopeId} {w : World} :
      Enters find n (.stmt (.setMember object name e) scope) w (.expr object scope) w
  | field {object e : Expr} {name : String} {scope : ScopeId} {w w' : World} {c : Class}
      {id : ObjectId} (done : Evaluate.expr find n object scope w = .ok (.object c id) w') :
      Enters find n (.stmt (.setMember object name e) scope) w (.expr e scope) w'
  | block {body : List Stmt} {scope inner : ScopeId} {w w' : World}
      (opened : newScope (.block body) scope w = .ok inner w') :
      Enters find n (.stmt (.block body) scope) w (.stmts body inner) w'
  | branchTest {e : Expr} {a : Stmt} {b : Option Stmt} {scope : ScopeId} {w : World} :
      Enters find n (.stmt (.ifElse e a b) scope) w (.condition e scope) w
  | thenBranch {e : Expr} {a : Stmt} {b : Option Stmt} {scope : ScopeId} {w w' : World}
      (done : Evaluate.condition find n e scope w = .ok true w') :
      Enters find n (.stmt (.ifElse e a b) scope) w (.stmt a scope) w'
  | elseBranch {e : Expr} {a b : Stmt} {scope : ScopeId} {w w' : World}
      (done : Evaluate.condition find n e scope w = .ok false w') :
      Enters find n (.stmt (.ifElse e a (some b)) scope) w (.stmt b scope) w'
  | loop {e : Expr} {body : Stmt} {scope : ScopeId} {w : World} :
      Enters find n (.stmt (.whileLoop e body) scope) w (.loop e body scope) w
  | returned {e : Expr} {scope : ScopeId} {w : World} :
      Enters find n (.stmt (.ret (some e)) scope) w (.expr e scope) w
  | head {s : Stmt} {rest : List Stmt} {scope : ScopeId} {w : World} :
      Enters find n (.stmts (s :: rest) scope) w (.stmt s scope) w
  | tail {s : Stmt} {rest : List Stmt} {scope : ScopeId} {w w' : World} {v : Value}
      (done : Evaluate.stmt find n s scope w = .ok (.normal v) w') :
      Enters find n (.stmts (s :: rest) scope) w (.stmts rest scope) w'
  | loopTest {e : Expr} {body : Stmt} {scope : ScopeId} {w : World} :
      Enters find n (.loop e body scope) w (.condition e scope) w
  | loopBody {e : Expr} {body : Stmt} {scope : ScopeId} {w w' : World}
      (done : Evaluate.condition find n e scope w = .ok true w') :
      Enters find n (.loop e body scope) w (.stmt body scope) w'
  | again {e : Expr} {body : Stmt} {scope : ScopeId} {w w' w'' : World} {v : Value}
      (done : Evaluate.condition find n e scope w = .ok true w')
      (done' : Evaluate.stmt find n body scope w' = .ok (.normal v) w'') :
      Enters find n (.loop e body scope) w (.loop e body scope) w''

end Task

/-- A reference, and the world and the scope in which it is evaluated. -/
structure Visit where
  world : World
  scope : ScopeId
  name : String
  id : NodeId

/-- The scope in which the variable of a visited reference is found. -/
def Visit.found (v : Visit) (find : Finder) : Option ScopeId :=
  find v.world.store v.scope v.name v.id

namespace Task

/-- The references that a task evaluates by itself. An assignment is met twice: before its value is
    computed, and when it is carried out. -/
inductive Looks (find : Finder) (n : Nat) : Task → World → Visit → Prop where
  | var {name : String} {id : NodeId} {scope : ScopeId} {w : World} :
      Looks find n (.expr (.var name id) scope) w ⟨w, scope, name, id⟩
  | this {id : NodeId} {scope : ScopeId} {w : World} :
      Looks find n (.expr (.this id) scope) w ⟨w, scope, "this", id⟩
  | update {target : Variable} {op : UpdateOp} {scope : ScopeId} {w : World} :
      Looks find n (.stmt (.update target op) scope) w ⟨w, scope, target.name, target.id⟩
  | assign {target : Variable} {e : Expr} {scope : ScopeId} {w : World} :
      Looks find n (.stmt (.assign target e) scope) w ⟨w, scope, target.name, target.id⟩
  | assigned {target : Variable} {e : Expr} {scope : ScopeId} {w w' : World} {a : Value}
      (done : Evaluate.expr find n e scope w = .ok a w') :
      Looks find n (.stmt (.assign target e) scope) w ⟨w', scope, target.name, target.id⟩

/-- The references that are evaluated in the course of a task. -/
inductive Visits (find : Finder) : Nat → Task → World → Visit → Prop where
  | here {n : Nat} {t : Task} {w : World} {v : Visit} (h : Looks find n t w v) :
      Visits find (n + 1) t w v
  | inside {n : Nat} {t t' : Task} {w w' : World} {v : Visit} (entered : Enters find n t w t' w')
      (h : Visits find n t' w' v) : Visits find (n + 1) t w v

end Task

/-- The references that are evaluated in the course of a program. -/
inductive ProgramVisits (find : Finder) (fuel : Nat) (scope : ScopeId) :
    Program → World → Visit → Prop where
  | here {node : Located Stmt} {rest : Program} {w : World} {v : Visit}
      (h : Task.Visits find fuel (.stmt node.value scope) w v) :
      ProgramVisits find fuel scope (node :: rest) w v
  | later {node : Located Stmt} {rest : Program} {w w' : World} {c : Completion} {v : Visit}
      (done : stmt find fuel node.value scope w = .ok c w')
      (h : ProgramVisits find fuel scope rest w' v) : ProgramVisits find fuel scope (node :: rest) w v

/-! ### Runs that find the same variables -/

/-- The second outcome is the first one. If `lax` holds, then it may be any other one where the first is that
    a variable was not found. -/
def Agree {α : Type} (lax : Prop) (r r' : EStateM.Result Halt World α) : Prop :=
  (lax ∧ ∃ name id w, r = .error (.failed (.undefinedVariable name id)) w) ∨ r' = r

namespace Agree

variable {lax : Prop} {α β : Type}

theorem refl (r : EStateM.Result Halt World α) : Agree lax r r := .inr rfl

theorem bind {p q : Eval α} {f g : α → Eval β} {w : World} (h : Agree lax (p w) (q w))
    (hf : ∀ a w', p w = .ok a w' → Agree lax (f a w') (g a w')) :
    Agree lax ((p >>= f) w) ((q >>= g) w) := by
  rcases h with ⟨hlax, name, id, w', hp⟩ | hq
  · exact .inl ⟨hlax, name, id, w', by simp only [Bind.bind, EStateM.bind, hp]⟩
  · simp only [Bind.bind, EStateM.bind, hq]
    cases hp : p w with
    | ok a w' => exact hf a w' hp
    | error e w' => exact .refl _

/-- A step that finds no variables does the same in both runs. -/
theorem bind_refl {p : Eval α} {f g : α → Eval β} {w : World}
    (hf : ∀ a w', p w = .ok a w' → Agree lax (f a w') (g a w')) :
    Agree lax ((p >>= f) w) ((p >>= g) w) :=
  .bind (.refl _) hf

variable {find find' : Finder} {v : Visit}

theorem read (h : (lax ∧ v.found find = none) ∨ v.found find' = v.found find) :
    Agree lax (Eval.read find v.scope v.name v.id v.world)
      (Eval.read find' v.scope v.name v.id v.world) := by
  rcases h with ⟨hlax, hnone⟩ | hsame
  · refine .inl ⟨hlax, v.name, v.id, v.world, ?_⟩
    unfold Visit.found at hnone
    simp [Eval.read, hnone]
  · unfold Visit.found at hsame
    exact .inr (by simp [Eval.read, hsame])

theorem write {value : Value} (h : (lax ∧ v.found find = none) ∨ v.found find' = v.found find) :
    Agree lax (Eval.write find v.scope ⟨v.name, v.id⟩ value v.world)
      (Eval.write find' v.scope ⟨v.name, v.id⟩ value v.world) := by
  rcases h with ⟨hlax, hnone⟩ | hsame
  · refine .inl ⟨hlax, v.name, v.id, v.world, ?_⟩
    unfold Visit.found at hnone
    simp [Eval.write, hnone]
  · unfold Visit.found at hsame
    exact .inr (by simp [Eval.write, hsame])

end Agree

namespace Task

section Agreement

variable (lax : Prop) (find find' : Finder)

/-- The second way of finding variables does as the first at every visit of a task. -/
def SameFound (n : Nat) (t : Task) (w : World) : Prop :=
  ∀ v, Visits find n t w v → (lax ∧ v.found find = none) ∨ v.found find' = v.found find

variable {lax find find'} {n : Nat}

theorem SameFound.enter {t t' : Task} {w w' : World} (h : SameFound lax find find' (n + 1) t w)
    (entered : Enters find n t w t' w') : SameFound lax find find' n t' w' :=
  fun v hv => h v (.inside entered hv)

/-- What is to be shown of each bound. -/
def RunsAgree (lax : Prop) (find find' : Finder) (n : Nat) : Prop :=
  ∀ t w, SameFound lax find find' n t w → Agree lax (t.run find n w) (t.run find' n w)

theorem expr_agree (ih : RunsAgree lax find find' n) (e : Expr) (scope : ScopeId) (w : World)
    (h : SameFound lax find find' (n + 1) (.expr e scope) w) :
    Agree lax (Evaluate.expr find (n + 1) e scope w) (Evaluate.expr find' (n + 1) e scope w) := by
  cases e with
  | number value => exact .refl _
  | text value => exact .refl _
  | bool value => exact .refl _
  | lambda f => exact .refl _
  | var name id => exact .read (h _ (.here .var))
  | this id => exact .read (h _ (.here .this))
  | binary op l r =>
      refine .bind (ih (.expr l scope) w (h.enter .left)) fun a w' ha => ?_
      exact .bind (ih (.expr r scope) w' (h.enter (.right ha))) fun b w'' _ => .refl _
  | logical op l r =>
      refine .bind (ih (.operand op l scope) w (h.enter .firstOperand)) fun a w' ha => ?_
      cases hd : isDecided op a with
      | true =>
          simp only [if_true]
          exact .refl _
      | false =>
          simp only [Bool.false_eq_true, if_false]
          exact .bind (ih (.operand op r scope) w' (h.enter (.secondOperand ha hd)))
            fun b w'' _ => .refl _
  | unary op e => exact .bind (ih (.expr e scope) w (h.enter .operand)) fun a w' _ => .refl _
  | member e name => exact .bind (ih (.expr e scope) w (h.enter .object)) fun a w' _ => .refl _
  | call e args =>
      refine .bind (ih (.expr e scope) w (h.enter .callee)) fun f w' hf => ?_
      refine .bind (ih (.exprs args scope) w' (h.enter (.args hf))) fun values w'' hv => ?_
      exact ih (.call f values) w'' (h.enter (.call hf hv))

theorem call_agree (ih : RunsAgree lax find find' n) (callee : Value) (args : List Value) (w : World)
    (h : SameFound lax find find' (n + 1) (.call callee args) w) :
    Agree lax (Evaluate.call find (n + 1) callee args w)
      (Evaluate.call find' (n + 1) callee args w) := by
  cases callee with
  | closure c => exact ih (.callClosure c args) w (h.enter .closure)
  | classValue c =>
      refine .bind_refl fun object w' ho => ?_
      cases hm : c.methods["init"]? with
      | none => exact .refl _
      | some method =>
          refine .bind_refl fun bound w'' hb => ?_
          exact .bind (ih (.callClosure bound args) w'' (h.enter (.init hm ho hb)))
            fun _ _ _ => .refl _
  | void => exact .refl _
  | number value => exact .refl _
  | text value => exact .refl _
  | bool value => exact .refl _
  | builtin f identity => exact .refl _
  | object c id => exact .refl _

theorem callClosure_agree (ih : RunsAgree lax find find' n) (c : Closure) (args : List Value)
    (w : World) (h : SameFound lax find find' (n + 1) (.callClosure c args) w) :
    Agree lax (Evaluate.callClosure find (n + 1) c args w)
      (Evaluate.callClosure find' (n + 1) c args w) := by
  simp only [Evaluate.callClosure]
  split
  · exact .refl _
  · next harity =>
    refine .bind_refl fun scope w' hs => ?_
    refine .bind_refl fun _ w'' hd => ?_
    exact .bind (ih (.stmts c.function.body scope) w''
      (h.enter (.body (Decidable.not_not.1 harity) hs hd))) fun _ _ _ => .refl _

theorem stmt_agree (ih : RunsAgree lax find find' n) (s : Stmt) (scope : ScopeId) (w : World)
    (h : SameFound lax find find' (n + 1) (.stmt s scope) w) :
    Agree lax (Evaluate.stmt find (n + 1) s scope w) (Evaluate.stmt find' (n + 1) s scope w) := by
  cases s with
  | expr e => exact .bind (ih (.expr e scope) w (h.enter .value)) fun _ _ _ => .refl _
  | declare name e => exact .bind (ih (.expr e scope) w (h.enter .initial)) fun _ _ _ => .refl _
  | assign target e =>
      refine .bind (ih (.expr e scope) w (h.enter .assigned)) fun value w' hv => ?_
      exact .bind (.write (h _ (.here (.assigned hv)))) fun _ _ _ => .refl _
  | update target op =>
      refine .bind (.read (h _ (.here .update))) fun old w' hold => ?_
      -- reading leaves the world as it is, so that the write is the same visit
      have hw : w' = w := by
        simp only [Eval.read] at hold
        split at hold <;> cases hold
        rfl
      subst hw
      refine .bind_refl fun new w'' hnew => ?_
      have hw : w'' = w' := by
        cases hop : Operators.binary op.binary old (.number 1) with
        | ok a =>
            rw [hop] at hnew
            cases hnew
            rfl
        | error e =>
            rw [hop] at hnew
            cases hnew
      subst hw
      exact .bind (.write (h _ (.here .update))) fun _ _ _ => .refl _
  | setMember object name e =>
      refine .bind (ih (.expr object scope) w (h.enter .owner)) fun value w' hv => ?_
      cases value with
      | object c id =>
          exact .bind (ih (.expr e scope) w' (h.enter (.field hv))) fun _ _ _ => .refl _
      | _ => exact .refl _
  | block body =>
      refine .bind_refl fun inner w' hi => ?_
      exact ih (.stmts body inner) w' (h.enter (.block hi))
  | ifElse test thenBranch elseBranch =>
      refine .bind (ih (.condition test scope) w (h.enter .branchTest)) fun b w' hb => ?_
      cases b with
      | true => exact ih (.stmt thenBranch scope) w' (h.enter (.thenBranch hb))
      | false =>
          cases elseBranch with
          | none => exact .refl _
          | some branch => exact ih (.stmt branch scope) w' (h.enter (.elseBranch hb))
  | whileLoop test body => exact ih (.loop test body scope) w (h.enter .loop)
  | function f => exact .refl _
  | ret value =>
      cases value with
      | none => exact .refl _
      | some e => exact .bind (ih (.expr e scope) w (h.enter .returned)) fun _ _ _ => .refl _
  | classDecl name methods => exact .refl _

theorem loop_agree (ih : RunsAgree lax find find' n) (test : Expr) (body : Stmt) (scope : ScopeId)
    (w : World) (h : SameFound lax find find' (n + 1) (.loop test body scope) w) :
    Agree lax (Evaluate.loop find (n + 1) test body scope w)
      (Evaluate.loop find' (n + 1) test body scope w) := by
  refine .bind (ih (.condition test scope) w (h.enter .loopTest)) fun b w' hb => ?_
  cases b with
  | false => exact .refl _
  | true =>
      refine .bind (ih (.stmt body scope) w' (h.enter (.loopBody hb))) fun c w'' hc => ?_
      cases c with
      | returned value => exact .refl _
      | normal value => exact ih (.loop test body scope) w'' (h.enter (.again hb hc))

/-- Two ways of finding variables that agree at every visit of a run give the same run. -/
theorem run_agree (lax : Prop) (find find' : Finder) (n : Nat) : RunsAgree lax find find' n := by
  induction n with
  | zero =>
      intro t w _
      cases t with
      | call callee args => cases callee <;> exact .refl _
      | _ => exact .refl _
  | succ n ih =>
      intro t w h
      cases t with
      | expr e scope => exact expr_agree ih e scope w h
      | exprs es scope =>
          cases es with
          | nil => exact .refl _
          | cons e rest =>
              refine .bind (ih (.expr e scope) w (h.enter .first)) fun a w' ha => ?_
              exact .bind (ih (.exprs rest scope) w' (h.enter (.rest ha))) fun _ _ _ => .refl _
      | operand op e scope =>
          exact .bind (ih (.expr e scope) w (h.enter .truth)) fun _ _ _ => .refl _
      | condition e scope =>
          exact .bind (ih (.expr e scope) w (h.enter .test)) fun _ _ _ => .refl _
      | call callee args => exact call_agree ih callee args w h
      | callClosure c args => exact callClosure_agree ih c args w h
      | stmt s scope => exact stmt_agree ih s scope w h
      | stmts ss scope =>
          cases ss with
          | nil => exact .refl _
          | cons s rest =>
              refine .bind (ih (.stmt s scope) w (h.enter .head)) fun c w' hc => ?_
              cases c with
              | returned value => exact .refl _
              | normal value => exact ih (.stmts rest scope) w' (h.enter (.tail hc))
      | loop test body scope => exact loop_agree ih test body scope w h

end Agreement

end Task

/-- A program runs its first statement and then the others. -/
theorem program_cons (find : Finder) (fuel : Nat) (scope : ScopeId) (node : Located Stmt)
    (rest : Program) (w : World) :
    program find fuel scope (node :: rest) w =
      match stmt find fuel node.value scope w with
      | .error e w' => .error ⟨node.line, e⟩ w'
      | .ok c w' =>
        match program find fuel scope rest w' with
        | .error e w'' => .error e w''
        | .ok values w'' => .ok (c.value :: values) w'' := by
  simp only [program, Bind.bind, EStateM.bind, EStateM.adaptExcept]
  cases stmt find fuel node.value scope w with
  | error e w' => rfl
  | ok c w' =>
      simp only
      cases program find fuel scope rest w' <;> rfl

/-- A program runs in the same way with two ways of finding variables that agree at every visit. -/
theorem program_agree (lax : Prop) (find find' : Finder) (fuel : Nat) (scope : ScopeId) (p : Program)
    (w : World) (h : ∀ v, ProgramVisits find fuel scope p w v →
      (lax ∧ v.found find = none) ∨ v.found find' = v.found find) :
    (lax ∧ ∃ line name id w',
      program find fuel scope p w = .error ⟨line, .failed (.undefinedVariable name id)⟩ w') ∨
    program find' fuel scope p w = program find fuel scope p w := by
  induction p generalizing w with
  | nil => exact .inr rfl
  | cons node rest ih =>
      have hnode := Task.run_agree lax find find' fuel (.stmt node.value scope) w
        fun v hv => h v (.here hv)
      simp only [Task.run] at hnode
      rw [program_cons, program_cons]
      rcases hnode with ⟨hlax, name, id, w', hfail⟩ | hsame
      · exact .inl ⟨hlax, node.line, name, id, w', by rw [hfail]⟩
      · rw [hsame]
        cases hs : stmt find fuel node.value scope w with
        | error e w' => exact .inr rfl
        | ok c w' =>
            rcases ih w' fun v hv => h v (.later hs hv) with
              ⟨hlax, line, name, id, w'', hfail⟩ | hsame'
            · exact .inl ⟨hlax, line, name, id, w'', by simp only [hfail]⟩
            · exact .inr (by simp only [hsame'])

end Kiln.Evaluate
