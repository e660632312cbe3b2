/-
Module: Kiln.Proofs.Twins.Tree
Purpose: Programs that do the same step by step. Twins have the same shape, and references under ids that are
  linked. In two places of a list of statements they may differ: where one has an update, the other may have
  the assignment that says the same; and what comes after a `return` may be anything. Whatever else is
  known of the ids on both sides can be taken into the link.
Main exports: Variable.Twin, Expr.Twin, Stmt.Twin, Stmt.Change, Function.Twin, Expr.Twin.imp,
  Stmt.Twin.imp, Function.Twin.imp
-/
import Kiln.Proofs.Scoping.Walk

namespace Kiln

section Relations

-- which ids on the two sides belong together
variable (I : NodeId → NodeId → Prop)

/-- Places that are written to, under linked ids. -/
structure Variable.Twin (v v' : Variable) : Prop where
  name : v'.name = v.name
  id : I v.id v'.id

/-- An update, and the assignment that says the same: it reads the variable once more, and adds one or takes one
    away. -/
inductive Stmt.Change : Stmt → Stmt → Prop where
  | mk {target target' : Variable} {read : NodeId} (op : UpdateOp) (written : target.Twin I target')
      (added : I target.id read) :
      Change (.update target op) (.assign target' (.binary op.binary (.var target.name read) (.number 1)))

mutual

/-- Expressions that do the same. -/
inductive Expr.Twin : Expr → Expr → Prop where
  | number (n : Int64) : Expr.Twin (.number n) (.number n)
  | text (s : String) : Expr.Twin (.text s) (.text s)
  | bool (b : Bool) : Expr.Twin (.bool b) (.bool b)
  | var (name : String) {i j : NodeId} (h : I i j) : Expr.Twin (.var name i) (.var name j)
  | this {i j : NodeId} (h : I i j) : Expr.Twin (.this i) (.this j)
  | binary (op : BinaryOp) {l l' r r' : Expr} (left : Expr.Twin l l') (right : Expr.Twin r r') :
      Expr.Twin (.binary op l r) (.binary op l' r')
  | logical (op : LogicalOp) {l l' r r' : Expr} (left : Expr.Twin l l') (right : Expr.Twin r r') :
      Expr.Twin (.logical op l r) (.logical op l' r')
  | unary (op : UnaryOp) {e e' : Expr} (operand : Expr.Twin e e') :
      Expr.Twin (.unary op e) (.unary op e')
  | member (name : String) {e e' : Expr} (object : Expr.Twin e e') :
      Expr.Twin (.member e name) (.member e' name)
  | call {e e' : Expr} {es es' : List Expr} (callee : Expr.Twin e e') (args : Expr.Twins es es') :
      Expr.Twin (.call e es) (.call e' es')
  | lambda {f f' : Function} (function : Function.Twin f f') : Expr.Twin (.lambda f) (.lambda f')

/-- Lists of expressions that do the same. -/
inductive Expr.Twins : List Expr → List Expr → Prop where
  | nil : Expr.Twins [] []
  | cons {e e' : Expr} {es es' : List Expr} (head : Expr.Twin e e') (tail : Expr.Twins es es') :
      Expr.Twins (e :: es) (e' :: es')

/-- Statements that do the same and end in the same way. -/
inductive Stmt.Twin : Stmt → Stmt → Prop where
  | expr {e e' : Expr} (value : Expr.Twin e e') : Stmt.Twin (.expr e) (.expr e')
  | declare (name : String) {e e' : Expr} (value : Expr.Twin e e') :
      Stmt.Twin (.declare name e) (.declare name e')
  | assign {v v' : Variable} {e e' : Expr} (target : v.Twin I v') (value : Expr.Twin e e') :
      Stmt.Twin (.assign v e) (.assign v' e')
  | update {v v' : Variable} (op : UpdateOp) (target : v.Twin I v') :
      Stmt.Twin (.update v op) (.update v' op)
  | setMember (name : String) {o o' e e' : Expr} (object : Expr.Twin o o') (value : Expr.Twin e e') :
      Stmt.Twin (.setMember o name e) (.setMember o' name e')
  | block {ss ss' : List Stmt} (body : Stmt.Twins ss ss') : Stmt.Twin (.block ss) (.block ss')
  | ifThen {e e' : Expr} {s s' : Stmt} (test : Expr.Twin e e') (thenBranch : Stmt.Twin s s') :
      Stmt.Twin (.ifElse e s none) (.ifElse e' s' none)
  | ifElse {e e' : Expr} {s s' t t' : Stmt} (test : Expr.Twin e e') (thenBranch : Stmt.Twin s s')
      (elseBranch : Stmt.Twin t t') : Stmt.Twin (.ifElse e s (some t)) (.ifElse e' s' (some t'))
  | whileLoop {e e' : Expr} {s s' : Stmt} (test : Expr.Twin e e') (body : Stmt.Twin s s') :
      Stmt.Twin (.whileLoop e s) (.whileLoop e' s')
  | function {f f' : Function} (function : Function.Twin f f') :
      Stmt.Twin (.function f) (.function f')
  | ret : Stmt.Twin (.ret none) (.ret none)
  | retValue {e e' : Expr} (value : Expr.Twin e e') : Stmt.Twin (.ret (some e)) (.ret (some e'))
  | classDecl (name : String) {fs fs' : List Function} (methods : Function.Twins fs fs') :
      Stmt.Twin (.classDecl name fs) (.classDecl name fs')

/-- Lists of statements that do the same. -/
inductive Stmt.Twins : List Stmt → List Stmt → Prop where
  | nil : Stmt.Twins [] []
  | cons {s s' : Stmt} {ss ss' : List Stmt} (head : Stmt.Twin s s') (tail : Stmt.Twins ss ss') :
      Stmt.Twins (s :: ss) (s' :: ss')
  | change {s s' : Stmt} {ss ss' : List Stmt} (head : Stmt.Change I s s') (tail : Stmt.Twins ss ss') :
      Stmt.Twins (s :: ss) (s' :: ss')
  | cut {e e' : Option Expr} (head : Stmt.Twin (.ret e) (.ret e')) (dead dead' : List Stmt) :
      Stmt.Twins (.ret e :: dead) (.ret e' :: dead')

/-- Functions that do the same when they are called. -/
inductive Function.Twin : Function → Function → Prop where
  | mk (name : Option String) (params : List Param) (returnType : Option String)
      {ss ss' : List Stmt} (body : Stmt.Twins ss ss') :
      Function.Twin ⟨name, params, returnType, ss⟩ ⟨name, params, returnType, ss'⟩

/-- Lists of functions that do the same. -/
inductive Function.Twins : List Function → List Function → Prop where
  | nil : Function.Twins [] []
  | cons {f f' : Function} {fs fs' : List Function} (head : Function.Twin f f')
      (tail : Function.Twins fs fs') : Function.Twins (f :: fs) (f' :: fs')

end

end Relations

/-! ### Functions -/

namespace Function.Twin

variable {I : NodeId → NodeId → Prop} {f f' : Function}

theorem displayName_eq (h : f.Twin I f') : f'.displayName = f.displayName := by
  cases h
  rfl

theorem paramNames_eq (h : f.Twin I f') : f'.paramNames = f.paramNames := by
  cases h
  rfl

theorem body (h : f.Twin I f') : Stmt.Twins I f.body f'.body := by
  cases h with
  | mk _ _ _ body => exact body

end Function.Twin

/-! ### What is known of the ids -/

/-- The ids in a region are those of its inside. -/
theorem Step.idsOfAll_within (region : Region) (body : List Step) :
    idsOfAll [.within region body] = idsOfAll body := by
  rw [idsOfAll_cons, ids_within]
  exact List.append_nil _

section Imp

-- `P` is known of all ids on the left, and `Q` of all on the right
variable {I J : NodeId → NodeId → Prop} {P Q : NodeId → Prop}

theorem Variable.Twin.imp (link : ∀ i j, P i → Q j → I i j → J i j) {v v' : Variable} (h : v.Twin I v')
    (hp : P v.id) (hq : Q v'.id) : v.Twin J v' :=
  ⟨h.name, link _ _ hp hq h.id⟩

theorem Stmt.Change.imp (link : ∀ i j, P i → Q j → I i j → J i j) {s s' : Stmt} (h : Stmt.Change I s s')
    (hp : ∀ i ∈ Step.idsOfAll s.steps, P i) (hq : ∀ j ∈ Step.idsOfAll s'.steps, Q j) :
    Stmt.Change J s s' := by
  cases h with
  | @mk target target' read op written added =>
      have htarget : P target.id := hp _ List.mem_cons_self
      have hread : Q read := hq _ List.mem_cons_self
      have htarget' : Q target'.id := hq _ (List.mem_cons_of_mem _ List.mem_cons_self)
      exact .mk op (written.imp link htarget htarget') (link _ _ htarget hread added)

mutual

/-- Links between ids can be replaced by others that what is known of the ids on both sides justifies. -/
theorem Expr.Twin.imp (link : ∀ i j, P i → Q j → I i j → J i j) :
    ∀ {e e' : Expr}, e.Twin I e' → (∀ i ∈ Step.idsOfAll e.steps, P i) →
      (∀ j ∈ Step.idsOfAll e'.steps, Q j) → e.Twin J e'
  | _, _, .number n, _, _ => .number n
  | _, _, .text s, _, _ => .text s
  | _, _, .bool b, _, _ => .bool b
  | _, _, .var name h, hp, hq =>
      .var name (link _ _ (hp _ List.mem_cons_self) (hq _ List.mem_cons_self) h)
  | _, _, .this h, hp, hq => .this (link _ _ (hp _ List.mem_cons_self) (hq _ List.mem_cons_self) h)
  | _, _, .binary op left right, hp, hq => by
      simp only [Expr.steps, Step.idsOfAll_append, List.forall_mem_append] at hp hq
      exact .binary op (left.imp link hp.1 hq.1) (right.imp link hp.2 hq.2)
  | _, _, .logical op left right, hp, hq => by
      simp only [Expr.steps, Step.idsOfAll_append, List.forall_mem_append] at hp hq
      exact .logical op (left.imp link hp.1 hq.1) (right.imp link hp.2 hq.2)
  | _, _, .unary op operand, hp, hq => .unary op (operand.imp link hp hq)
  | _, _, .member name object, hp, hq => .member name (object.imp link hp hq)
  | _, _, .call callee args, hp, hq => by
      simp only [Expr.steps, Step.idsOfAll_append, List.forall_mem_append] at hp hq
      exact .call (callee.imp link hp.1 hq.1) (args.imp link hp.2 hq.2)
  | _, _, .lambda function, hp, hq => .lambda (function.imp link hp hq)

theorem Expr.Twins.imp (link : ∀ i j, P i → Q j → I i j → J i j) :
    ∀ {es es' : List Expr}, Expr.Twins I es es' →
      (∀ i ∈ Step.idsOfAll (Expr.stepsOfAll es), P i) →
      (∀ j ∈ Step.idsOfAll (Expr.stepsOfAll es'), Q j) → Expr.Twins J es es'
  | _, _, .nil, _, _ => .nil
  | _, _, .cons head tail, hp, hq => by
      simp only [Expr.stepsOfAll, Step.idsOfAll_append, List.forall_mem_append] at hp hq
      exact .cons (head.imp link hp.1 hq.1) (tail.imp link hp.2 hq.2)

theorem Stmt.Twin.imp (link : ∀ i j, P i → Q j → I i j → J i j) :
    ∀ {s s' : Stmt}, s.Twin I s' → (∀ i ∈ Step.idsOfAll s.steps, P i) →
      (∀ j ∈ Step.idsOfAll s'.steps, Q j) → s.Twin J s'
  | _, _, .expr value, hp, hq => .expr (value.imp link hp hq)
  | _, _, .declare name value, hp, hq => by
      simp only [Stmt.steps, Step.idsOfAll_cons, Step.idsOfAll_append, List.forall_mem_append] at hp hq
      exact .declare name (value.imp link hp.2.1 hq.2.1)
  | _, _, .assign target value, hp, hq => by
      simp only [Stmt.steps, Step.idsOfAll_append, List.forall_mem_append] at hp hq
      have htarget := target.imp link (hp.2 _ List.mem_cons_self) (hq.2 _ List.mem_cons_self)
      exact .assign htarget (value.imp link hp.1 hq.1)
  | _, _, .update op target, hp, hq =>
      .update op (target.imp link (hp _ List.mem_cons_self) (hq _ List.mem_cons_self))
  | _, _, .setMember name object value, hp, hq => by
      simp only [Stmt.steps, Step.idsOfAll_append, List.forall_mem_append] at hp hq
      exact .setMember name (object.imp link hp.1 hq.1) (value.imp link hp.2 hq.2)
  | _, _, .block body, hp, hq => by
      simp only [Stmt.steps, Step.idsOfAll_within] at hp hq
      exact .block (body.imp link hp hq)
  | _, _, .ifThen test thenBranch, hp, hq => by
      simp only [Stmt.steps, Step.idsOfAll_append, List.forall_mem_append] at hp hq
      exact .ifThen (test.imp link hp.1 hq.1) (thenBranch.imp link hp.2 hq.2)
  | _, _, .ifElse test thenBranch elseBranch, hp, hq => by
      simp only [Stmt.steps, Step.idsOfAll_append, List.forall_mem_append] at hp hq
      exact .ifElse (test.imp link hp.1 hq.1) (thenBranch.imp link hp.2.1 hq.2.1) (elseBranch.imp link hp.2.2 hq.2.2)
  | _, _, .whileLoop test body, hp, hq => by
      simp only [Stmt.steps, Step.idsOfAll_append, List.forall_mem_append] at hp hq
      exact .whileLoop (test.imp link hp.1 hq.1) (body.imp link hp.2 hq.2)
  | _, _, .function function, hp, hq => .function (function.imp link hp hq)
  | _, _, .ret, _, _ => .ret
  | _, _, .retValue value, hp, hq => .retValue (value.imp link hp hq)
  | _, _, .classDecl name methods, hp, hq => by
      have hmethods : ∀ fs : List Function, Step.idsOfAll (Stmt.classDecl name fs).steps
          = Step.idsOfAll (Function.stepsOfAll fs) := fun fs => Step.idsOfAll_within (.methods fs) _
      rw [hmethods] at hp hq
      exact .classDecl name (methods.imp link hp hq)

theorem Stmt.Twins.imp (link : ∀ i j, P i → Q j → I i j → J i j) :
    ∀ {ss ss' : List Stmt}, Stmt.Twins I ss ss' →
      (∀ i ∈ Step.idsOfAll (Stmt.stepsOfAll ss), P i) →
      (∀ j ∈ Step.idsOfAll (Stmt.stepsOfAll ss'), Q j) → Stmt.Twins J ss ss'
  | _, _, .nil, _, _ => .nil
  | _, _, .cons head tail, hp, hq => by
      simp only [Stmt.stepsOfAll, Step.idsOfAll_append, List.forall_mem_append] at hp hq
      exact .cons (head.imp link hp.1 hq.1) (tail.imp link hp.2 hq.2)
  | _, _, .change head tail, hp, hq => by
      simp only [Stmt.stepsOfAll, Step.idsOfAll_append, List.forall_mem_append] at hp hq
      exact .change (head.imp link hp.1 hq.1) (tail.imp link hp.2 hq.2)
  | _, _, .cut head dead dead', hp, hq => by
      simp only [Stmt.stepsOfAll, Step.idsOfAll_append, List.forall_mem_append] at hp hq
      exact .cut (head.imp link hp.1 hq.1) dead dead'

theorem Function.Twin.imp (link : ∀ i j, P i → Q j → I i j → J i j) :
    ∀ {f f' : Function} {kind : FunctionKind}, f.Twin I f' →
      (∀ i ∈ Step.idsOfAll (f.steps kind), P i) → (∀ j ∈ Step.idsOfAll (f'.steps kind), Q j) → f.Twin J f'
  | _, _, _, .mk name params returnType body, hp, hq => by
      simp only [Function.steps, Step.idsOfAll_within, Step.idsOfAll_append,
        List.forall_mem_append] at hp hq
      exact .mk name params returnType (body.imp link hp.2 hq.2)

theorem Function.Twins.imp (link : ∀ i j, P i → Q j → I i j → J i j) :
    ∀ {fs fs' : List Function}, Function.Twins I fs fs' →
      (∀ i ∈ Step.idsOfAll (Function.stepsOfAll fs), P i) →
      (∀ j ∈ Step.idsOfAll (Function.stepsOfAll fs'), Q j) → Function.Twins J fs fs'
  | _, _, .nil, _, _ => .nil
  | _, _, .cons head tail, hp, hq => by
      simp only [Function.stepsOfAll, Step.idsOfAll_append, List.forall_mem_append] at hp hq
      exact .cons (head.imp link hp.1 hq.1) (tail.imp link hp.2 hq.2)

end

end Imp

end Kiln
