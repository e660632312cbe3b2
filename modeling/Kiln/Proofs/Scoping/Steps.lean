/-
Module: Kiln.Proofs.Scoping.Steps
Purpose: The scope analysis as a list of steps. The analysis visits a tree in the order of the source and
  does only a few kinds of things to the names it knows; what it does to a tree is written here as a list,
  in which a region with a scope of its own is one step around the list of its inside. Facts about the
  analysis are then inductions over such lists, and need not go through the grammar again.
Main exports: Region, Step, Step.run, Step.runAll, Expr.steps, Stmt.steps, Function.steps, Program.steps,
  Scoping.stmt_eq_runAll, resolve_eq_ok_iff
-/
import Kiln.Proofs.Tree.Names
import Kiln.Scoping.Analysis

namespace Kiln

open Resolver

/-- A part of a program that has a scope of its own. -/
inductive Region where
  | block (body : List Stmt)
  | function (kind : FunctionKind) (f : Function)
  /-- The methods of a class, inside which `this` is known. -/
  | methods (functions : List Function)

/-- The analysis of the inside of a region. -/
def Region.around : Region → Resolver Unit → Resolver Unit
  | .block _, step => inScope step
  | .function kind _, step => inFunction kind step
  | .methods _, step => inScope do
    define "this"
    step

/-- The names known at the start of the inside of a region. -/
def Names.enter (n : Names) : Region → Names
  | .block _ => n.push
  | .function kind _ => { n.push with enclosing := some kind }
  | .methods _ => n.push.mark "this" true

/-- The names known after a region that began with the names `n`, when `m` are those at the end of its
    inside. -/
def Names.leave (n m : Names) : Region → Names
  | .function _ _ => { m.pop with enclosing := n.enclosing }
  | _ => m.pop

/-- What the analysis does at one point of a program. -/
inductive Step where
  | declare (name : String)
  | define (name : String)
  /-- A name is about to be read. -/
  | refuse (name : String)
  | locate (name : String) (id : NodeId)
  /-- A `return` is met. -/
  | exit
  | within (region : Region) (body : List Step)

namespace Step

mutual

/-- One step of the analysis. -/
def run : Step → Resolver Unit
  | .declare name => Resolver.declare name
  | .define name => Resolver.define name
  | .refuse name => refuseSelfReference name
  | .locate name id => Resolver.locate id name
  | .exit => do
    if (← get).enclosing.isNone then throw .returnOutsideFunction
  | .within region body => region.around (runAll body)

/-- Several steps of the analysis, in order. -/
def runAll : List Step → Resolver Unit
  | [] => return ()
  | step :: rest => do
    step.run
    runAll rest

end

end Step

/-! ### The steps for each part of a program -/

/-- The steps for the parameters of a function. -/
def Param.steps : List Param → List Step
  | [] => []
  | p :: rest => .declare p.name :: .define p.name :: Param.steps rest

mutual

/-- The steps for an expression. -/
def Expr.steps : Expr → List Step
  | .number _ | .text _ | .bool _ => []
  | .var name id => [.refuse name, .locate name id]
  | .this id => [.locate "this" id]
  | .binary _ left right | .logical _ left right => left.steps ++ right.steps
  | .unary _ operand => operand.steps
  | .member object _ => object.steps
  | .call callee args => callee.steps ++ Expr.stepsOfAll args
  | .lambda f => f.steps .function

/-- The steps for several expressions. -/
def Expr.stepsOfAll : List Expr → List Step
  | [] => []
  | e :: rest => e.steps ++ Expr.stepsOfAll rest

/-- The steps for a statement. -/
def Stmt.steps : Stmt → List Step
  | .expr e => e.steps
  | .declare name value => .declare name :: (value.steps ++ [.define name])
  | .assign target value => value.steps ++ [.locate target.name target.id]
  | .update target _ => [.locate target.name target.id]
  | .setMember object _ value => object.steps ++ value.steps
  | .block body => [.within (.block body) (Stmt.stepsOfAll body)]
  | .ifElse test thenBranch none => test.steps ++ thenBranch.steps
  | .ifElse test thenBranch (some elseBranch) =>
    test.steps ++ (thenBranch.steps ++ elseBranch.steps)
  | .whileLoop test body => test.steps ++ body.steps
  | .function f => .declare f.displayName :: .define f.displayName :: f.steps .function
  | .ret none => [.exit]
  | .ret (some value) => .exit :: value.steps
  | .classDecl name methods =>
    [.declare name, .define name, .within (.methods methods) (Function.stepsOfAll methods)]

/-- The steps for several statements. -/
def Stmt.stepsOfAll : List Stmt → List Step
  | [] => []
  | s :: rest => s.steps ++ Stmt.stepsOfAll rest

/-- The steps for a function of the given kind. -/
def Function.steps (kind : FunctionKind) : Function → List Step
  | ⟨name, params, returnType, body⟩ =>
    [.within (.function kind ⟨name, params, returnType, body⟩)
      (Param.steps params ++ Stmt.stepsOfAll body)]

/-- The steps for the methods of a class. -/
def Function.stepsOfAll : List Function → List Step
  | [] => []
  | f :: rest => f.steps .method ++ Function.stepsOfAll rest

end

/-- The steps for a program. -/
def Program.steps : Program → List Step
  | [] => []
  | node :: rest => node.value.steps ++ Program.steps rest

theorem Function.steps_eq (kind : FunctionKind) (f : Function) :
    f.steps kind = [.within (.function kind f) (Param.steps f.params ++ Stmt.stepsOfAll f.body)] := by
  cases f
  rw [Function.steps]

theorem Program.steps_eq (p : Program) : Program.steps p = Stmt.stepsOfAll p.statements := by
  induction p with
  | nil => rfl
  | cons node rest ih => exact congrArg (node.value.steps ++ ·) ih

theorem Program.steps_append (a b : Program) :
    Program.steps (a ++ b) = Program.steps a ++ Program.steps b := by
  induction a with
  | nil => rfl
  | cons node rest ih => simp [Program.steps, ih]

/-! ### The steps do what the analysis does -/

theorem Resolver.get_bind {α : Type} (f : Names → Resolver α) (n : Names) : (get >>= f) n = f n n := rfl

namespace Step

theorem runAll_append (first second : List Step) :
    runAll (first ++ second) = (runAll first >>= fun _ => runAll second) := by
  induction first with
  | nil => simp [runAll]
  | cons step rest ih => simp [runAll, ih]

theorem runAll_singleton (step : Step) : runAll [step] = step.run := by
  simp [runAll]

end Step

namespace Scoping

open Step

theorem params_eq_runAll (ps : List Param) : params ps = runAll (Param.steps ps) := by
  induction ps with
  | nil => rfl
  | cons p rest ih => simp [params, Param.steps, runAll, run, introduce, ih]

mutual

/-- The analysis of an expression takes its steps. -/
theorem expr_eq_runAll : ∀ e : Expr, expr e = runAll e.steps
  | .number _ => by simp [expr, Expr.steps, runAll]
  | .text _ => by simp [expr, Expr.steps, runAll]
  | .bool _ => by simp [expr, Expr.steps, runAll]
  | .var _ _ => by simp [expr, Expr.steps, runAll, run]
  | .this _ => by simp [expr, Expr.steps, runAll, run]
  | .binary _ left right => by
      simp only [expr, Expr.steps, runAll_append, expr_eq_runAll left, expr_eq_runAll right]
  | .logical _ left right => by
      simp only [expr, Expr.steps, runAll_append, expr_eq_runAll left, expr_eq_runAll right]
  | .unary _ operand => by simp only [expr, Expr.steps, expr_eq_runAll operand]
  | .member object _ => by simp only [expr, Expr.steps, expr_eq_runAll object]
  | .call callee args => by
      simp only [expr, Expr.steps, runAll_append, expr_eq_runAll callee, exprs_eq_runAll args]
  | .lambda f => by simp only [expr, Expr.steps, function_eq_runAll .function f]

/-- The analysis of several expressions takes their steps. -/
theorem exprs_eq_runAll : ∀ es : List Expr, exprs es = runAll (Expr.stepsOfAll es)
  | [] => by simp [exprs, Expr.stepsOfAll, runAll]
  | e :: rest => by
      simp only [exprs, Expr.stepsOfAll, runAll_append, expr_eq_runAll e, exprs_eq_runAll rest]

/-- The analysis of a statement takes its steps. -/
theorem stmt_eq_runAll : ∀ s : Stmt, stmt s = runAll s.steps
  | .expr e => by simp only [stmt, Stmt.steps, expr_eq_runAll e]
  | .declare _ value => by
      simp [stmt, Stmt.steps, runAll, run, runAll_append, expr_eq_runAll value]
  | .assign _ value => by
      simp [stmt, Stmt.steps, runAll, run, runAll_append, expr_eq_runAll value]
  | .update _ _ => by simp [stmt, Stmt.steps, runAll, run]
  | .setMember object _ value => by
      simp only [stmt, Stmt.steps, runAll_append, expr_eq_runAll object, expr_eq_runAll value]
  | .block body => by
      simp only [stmt, Stmt.steps, runAll_singleton, run, Region.around, stmts_eq_runAll body]
  | .ifElse test thenBranch none => by
      simp only [stmt, Stmt.steps, runAll_append, expr_eq_runAll test, stmt_eq_runAll thenBranch]
  | .ifElse test thenBranch (some elseBranch) => by
      simp only [stmt, Stmt.steps, runAll_append, expr_eq_runAll test, stmt_eq_runAll thenBranch,
        stmt_eq_runAll elseBranch]
  | .whileLoop test body => by
      simp only [stmt, Stmt.steps, runAll_append, expr_eq_runAll test, stmt_eq_runAll body]
  | .function f => by
      simp [stmt, Stmt.steps, runAll, run, introduce, function_eq_runAll .function f]
  | .ret none => by simp [stmt, Stmt.steps, runAll, run]
  | .ret (some value) => by
      funext n
      rw [stmt, Stmt.steps, runAll, run, expr_eq_runAll value, bind_assoc, Resolver.get_bind,
        Resolver.get_bind]
      cases n.enclosing <;> rfl
  | .classDecl _ methods => by
      simp [stmt, Stmt.steps, runAll, run, introduce, Region.around, functions_eq_runAll methods]

/-- The analysis of several statements takes their steps. -/
theorem stmts_eq_runAll : ∀ ss : List Stmt, stmts ss = runAll (Stmt.stepsOfAll ss)
  | [] => by simp [stmts, Stmt.stepsOfAll, runAll]
  | s :: rest => by
      simp only [stmts, Stmt.stepsOfAll, runAll_append, stmt_eq_runAll s, stmts_eq_runAll rest]

/-- The analysis of a function takes its steps. -/
theorem function_eq_runAll (kind : FunctionKind) : ∀ f : Function, function kind f = runAll (f.steps kind)
  | ⟨_, ps, _, body⟩ => by
      simp only [function, Function.steps, runAll_singleton, run, Region.around, runAll_append,
        params_eq_runAll ps, stmts_eq_runAll body]

/-- The analysis of several functions takes their steps. -/
theorem functions_eq_runAll : ∀ fs : List Function, functions fs = runAll (Function.stepsOfAll fs)
  | [] => by simp [functions, Function.stepsOfAll, runAll]
  | f :: rest => by
      simp only [functions, Function.stepsOfAll, runAll_append, function_eq_runAll .method f,
        functions_eq_runAll rest]

end

end Scoping

/-! ### Steps that succeed -/

theorem Resolver.around_eq_ok {enter : Names → Names} {leave : Names → Names → Names}
    {step : Resolver Unit} {n m : Names} :
    around enter leave step n = .ok () m ↔ ∃ k, step (enter n) = .ok () k ∧ m = leave n k := by
  unfold around
  cases step (enter n) with
  | ok a k => simp [eq_comm]
  | error e k => simp

namespace Step

theorem bind_eq_ok {p q : Resolver Unit} {n m : Names} :
    (p >>= fun _ => q) n = .ok () m ↔ ∃ k, p n = .ok () k ∧ q k = .ok () m := by
  simp only [bind, EStateM.bind]
  cases p n with
  | ok a k => simp
  | error e k => simp

theorem runAll_nil_eq_ok {n m : Names} : runAll [] n = .ok () m ↔ m = n := by
  simp only [runAll, pure, EStateM.pure, EStateM.Result.ok.injEq, true_and]
  exact eq_comm

theorem runAll_cons_eq_ok {step : Step} {rest : List Step} {n m : Names} :
    runAll (step :: rest) n = .ok () m ↔ ∃ k, step.run n = .ok () k ∧ runAll rest k = .ok () m := by
  rw [runAll, bind_eq_ok]

theorem runAll_append_eq_ok {first second : List Step} {n m : Names} :
    runAll (first ++ second) n = .ok () m ↔
      ∃ k, runAll first n = .ok () k ∧ runAll second k = .ok () m := by
  rw [runAll_append, bind_eq_ok]

theorem run_declare (name : String) (n : Names) :
    (Step.declare name).run n = if n.innermost.contains name
      then .error (.duplicateDeclaration name) n else .ok () (n.mark name false) := by
  rw [run, Resolver.declare, Resolver.get_bind]
  cases n.innermost.contains name <;> rfl

theorem run_declare_eq_ok {name : String} {n m : Names} :
    (Step.declare name).run n = .ok () m ↔
      n.innermost.contains name = false ∧ m = n.mark name false := by
  rw [run_declare]
  cases n.innermost.contains name <;> simp [eq_comm]

theorem run_define_eq_ok {name : String} {n m : Names} :
    (Step.define name).run n = .ok () m ↔ m = n.mark name true := by
  have h : (Step.define name).run n = .ok () (n.mark name true) := rfl
  simp [h, eq_comm]

theorem run_refuse (name : String) (n : Names) :
    (Step.refuse name).run n =
      if n.innermost[name]? = some false then .error (.selfReference name) n else .ok () n := by
  rw [run, refuseSelfReference, Resolver.get_bind]
  split <;> rfl

theorem run_refuse_eq_ok {name : String} {n m : Names} :
    (Step.refuse name).run n = .ok () m ↔ n.innermost[name]? ≠ some false ∧ m = n := by
  rw [run_refuse]
  split <;> simp [*, eq_comm (a := n)]

theorem run_locate {name : String} {id : NodeId} (n : Names) :
    (Step.locate name id).run n = .ok ()
      (match n.distance? name with
      | none => n
      | some distance => { n with found := n.found.record id distance }) := rfl

theorem run_exit (n : Names) :
    Step.exit.run n = if n.enclosing.isSome then .ok () n else .error .returnOutsideFunction n := by
  rw [run, Resolver.get_bind]
  cases n.enclosing <;> rfl

theorem run_exit_eq_ok {n m : Names} :
    Step.exit.run n = .ok () m ↔ n.enclosing.isSome = true ∧ m = n := by
  rw [run_exit]
  cases n.enclosing <;> simp [eq_comm]

/-- The inside of a region is analysed between entering and leaving it. -/
theorem run_within_eq_ok {region : Region} {body : List Step} {n m : Names} :
    (Step.within region body).run n = .ok () m ↔
      ∃ k, runAll body (n.enter region) = .ok () k ∧ m = n.leave k region := by
  rw [run]
  cases region with
  | block =>
      rw [Region.around, inScope, Resolver.around_eq_ok]
      rfl
  | methods =>
      rw [Region.around, inScope, Resolver.around_eq_ok]
      rfl
  | function =>
      rw [Region.around, inFunction, Resolver.around_eq_ok]
      constructor
      · rintro ⟨k, hk, rfl⟩
        obtain ⟨k', hk', rfl⟩ := Resolver.around_eq_ok.1 hk
        exact ⟨k', hk', rfl⟩
      · rintro ⟨k, hk, rfl⟩
        exact ⟨k.pop, Resolver.around_eq_ok.2 ⟨k, hk, rfl⟩, rfl⟩

end Step

/-! ### Whole programs -/

theorem Scoping.program_eq_ok_iff (p : Program) (n m : Names) :
    Scoping.program p n = .ok () m ↔ Step.runAll (Program.steps p) n = .ok () m := by
  induction p generalizing n with
  | nil =>
      rw [Scoping.program, Program.steps, Step.runAll]
      simp [pure, EStateM.pure]
  | cons node rest ih =>
      simp only [Scoping.program, Program.steps, Step.runAll_append_eq_ok, bind, EStateM.bind,
        EStateM.adaptExcept, Scoping.stmt_eq_runAll]
      cases Step.runAll node.value.steps n with
      | ok a k => simp [ih]
      | error e k => simp

/-- A program is accepted exactly when all its steps succeed, and its distances are then those that the
    steps have found. -/
theorem resolve_eq_ok_iff (p : Program) (a : Annotations) :
    resolve p = .ok a ↔ ∃ n, Step.runAll (Program.steps p) .initial = .ok () n ∧ n.found = a := by
  unfold resolve
  constructor
  · intro h
    split at h
    · next n hn => exact ⟨n, (Scoping.program_eq_ok_iff p _ _).1 hn, by simpa using h⟩
    · cases h
  · rintro ⟨n, hn, rfl⟩
    rw [(Scoping.program_eq_ok_iff p _ _).2 hn]

end Kiln
