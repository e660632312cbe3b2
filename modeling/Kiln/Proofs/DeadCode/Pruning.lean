/-
Module: Kiln.Proofs.DeadCode.Pruning
Purpose: Programs without what comes after a `return`. In every list of statements, at every depth, the statements
  after a `return` are left out. What is left does the same step by step, since a list of statements ends with its
  first `return`; and the scope analysis of what is left goes on as before, since the names that are left out
  could only be referred to by what is left out with them.
Main exports: Stmt.live, Stmt.liveAll, Program.live, Program.twin_live, Program.retraces_live
-/
import Kiln.Proofs.Scoping.Retracing
import Kiln.Proofs.Twins.Programs

namespace Kiln

/-! ### What is left -/

/-- Whether a statement is a `return`. -/
def Stmt.isReturn : Stmt → Bool
  | .ret _ => true
  | _ => false

mutual

/-- An expression without what comes after a `return`. -/
def Expr.live : Expr → Expr
  | .number value => .number value
  | .text value => .text value
  | .bool value => .bool value
  | .var name id => .var name id
  | .this id => .this id
  | .binary op left right => .binary op left.live right.live
  | .logical op left right => .logical op left.live right.live
  | .unary op operand => .unary op operand.live
  | .member object property => .member object.live property
  | .call callee args => .call callee.live (Expr.liveAll args)
  | .lambda function => .lambda function.live

/-- Several expressions without what comes after a `return`. -/
def Expr.liveAll : List Expr → List Expr
  | [] => []
  | e :: rest => e.live :: Expr.liveAll rest

/-- A statement without what comes after a `return` inside it. -/
def Stmt.live : Stmt → Stmt
  | .expr e => .expr e.live
  | .declare name value => .declare name value.live
  | .assign target value => .assign target value.live
  | .update target op => .update target op
  | .setMember object property value => .setMember object.live property value.live
  | .block body => .block (Stmt.liveAll body)
  | .ifElse test thenBranch none => .ifElse test.live thenBranch.live none
  | .ifElse test thenBranch (some elseBranch) =>
    .ifElse test.live thenBranch.live (some elseBranch.live)
  | .whileLoop test body => .whileLoop test.live body.live
  | .function function => .function function.live
  | .ret none => .ret none
  | .ret (some value) => .ret (some value.live)
  | .classDecl name methods => .classDecl name (Function.liveAll methods)

/-- The statements of a list up to its first `return`. -/
def Stmt.liveAll : List Stmt → List Stmt
  | [] => []
  | s :: rest => s.live :: if s.isReturn then [] else Stmt.liveAll rest

/-- A function without what comes after a `return`. -/
def Function.live : Function → Function
  | ⟨name, params, returnType, body⟩ => ⟨name, params, returnType, Stmt.liveAll body⟩

/-- Several functions without what comes after a `return`. -/
def Function.liveAll : List Function → List Function
  | [] => []
  | f :: rest => f.live :: Function.liveAll rest

end

/-- A program without what comes after a `return`. At the top level there can be no `return`. -/
def Program.live (p : Program) : Program := p.map fun node => ⟨node.line, node.value.live⟩

/-! ### What is left does the same -/

mutual

/-- An expression does the same without what comes after a `return`. -/
theorem Expr.twin_live : ∀ e : Expr, e.Twin Eq e.live
  | .number n => .number n
  | .text s => .text s
  | .bool b => .bool b
  | .var name _ => .var name rfl
  | .this _ => .this rfl
  | .binary op left right => .binary op left.twin_live right.twin_live
  | .logical op left right => .logical op left.twin_live right.twin_live
  | .unary op operand => .unary op operand.twin_live
  | .member object name => .member name object.twin_live
  | .call callee args => .call callee.twin_live (Expr.twins_live args)
  | .lambda f => .lambda f.twin_live

theorem Expr.twins_live : ∀ es : List Expr, Expr.Twins Eq es (Expr.liveAll es)
  | [] => .nil
  | e :: rest => .cons e.twin_live (Expr.twins_live rest)

/-- A statement does the same without what comes after a `return` inside it. -/
theorem Stmt.twin_live : ∀ s : Stmt, s.Twin Eq s.live
  | .expr e => .expr e.twin_live
  | .declare name value => .declare name value.twin_live
  | .assign _ value => .assign ⟨rfl, rfl⟩ value.twin_live
  | .update _ op => .update op ⟨rfl, rfl⟩
  | .setMember object name value => .setMember name object.twin_live value.twin_live
  | .block body => .block (Stmt.twins_live body)
  | .ifElse test thenBranch none => .ifThen test.twin_live thenBranch.twin_live
  | .ifElse test thenBranch (some elseBranch) =>
      .ifElse test.twin_live thenBranch.twin_live elseBranch.twin_live
  | .whileLoop test body => .whileLoop test.twin_live body.twin_live
  | .function f => .function f.twin_live
  | .ret none => .ret
  | .ret (some value) => .retValue value.twin_live
  | .classDecl name methods => .classDecl name (Function.twins_live methods)

/-- Statements do the same as those up to the first `return` among them. -/
theorem Stmt.twins_live : ∀ ss : List Stmt, Stmt.Twins Eq ss (Stmt.liveAll ss)
  | [] => .nil
  | s :: rest => by
      rw [Stmt.liveAll]
      cases hs : s.isReturn with
      | false => exact .cons s.twin_live (Stmt.twins_live rest)
      | true =>
          cases s with
          | ret value =>
              cases value with
              | none => exact .cut .ret rest []
              | some e => exact .cut (.retValue e.twin_live) rest []
          | _ => cases hs

theorem Function.twin_live : ∀ f : Function, f.Twin Eq f.live
  | ⟨name, params, returnType, body⟩ => .mk name params returnType (Stmt.twins_live body)

theorem Function.twins_live : ∀ fs : List Function, Function.Twins Eq fs (Function.liveAll fs)
  | [] => .nil
  | f :: rest => .cons f.twin_live (Function.twins_live rest)

end

/-- A program does the same without what comes after a `return`. -/
theorem Program.twin_live (p : Program) : p.Twin Eq p.live := by
  induction p with
  | nil => exact .nil
  | cons node rest ih => exact .cons node.line node.value.twin_live ih

/-! ### The scope analysis of what is left -/

section Scoping

open Step

variable {t : NodeId → Option Nat}

mutual

/-- The analysis of an expression without what comes after a `return`. -/
theorem Expr.retraces_live : ∀ (e : Expr) {n n' : Names}, n.Same n' →
    Retraces False Eq t t Names.Same e.steps e.live.steps n n'
  | .number _, _, _, same => .nil same
  | .text _, _, _, same => .nil same
  | .bool _, _, _, same => .nil same
  | .var name _, _, _, same =>
      Retraces.append (x := [.refuse name]) (y := [.refuse name]) (.refuse same name)
        fun _ _ _ same => .locate same name rfl
  | .this _, _, _, same => .locate same "this" rfl
  | .binary _ left right, _, _, same =>
      (left.retraces_live same).append fun _ _ _ same => right.retraces_live same
  | .logical _ left right, _, _, same =>
      (left.retraces_live same).append fun _ _ _ same => right.retraces_live same
  | .unary _ operand, _, _, same => operand.retraces_live same
  | .member object _, _, _, same => object.retraces_live same
  | .call callee args, _, _, same =>
      (callee.retraces_live same).append fun _ _ _ same => Expr.retraces_liveAll args same
  | .lambda f, _, _, same => f.retraces_live same

theorem Expr.retraces_liveAll : ∀ (es : List Expr) {n n' : Names}, n.Same n' →
    Retraces False Eq t t Names.Same (Expr.stepsOfAll es) (Expr.stepsOfAll (Expr.liveAll es)) n n'
  | [], _, _, same => .nil same
  | e :: rest, _, _, same =>
      (e.retraces_live same).append fun _ _ _ same => Expr.retraces_liveAll rest same

/-- The analysis of a statement without what comes after a `return` inside it. A region keeps its names to itself,
    so that none are missing after the statement. -/
theorem Stmt.retraces_live : ∀ (s : Stmt) {n n' : Names}, n.Same n' →
    Retraces False Eq t t Names.Same s.steps s.live.steps n n'
  | .expr e, _, _, same => e.retraces_live same
  | .declare name value, _, _, same =>
      Retraces.append (x := [.declare name]) (y := [.declare name]) (.declare same name)
        fun _ _ _ same => (value.retraces_live same).append fun _ _ _ same => .define same name
  | .assign target value, _, _, same =>
      (value.retraces_live same).append fun _ _ _ same => .locate same target.name rfl
  | .update target _, _, _, same => .locate same target.name rfl
  | .setMember object _ value, _, _, same =>
      (object.retraces_live same).append fun _ _ _ same => value.retraces_live same
  | .block body, _, _, same => .block same fun _ _ _ same => Stmt.retraces_liveAll body same
  | .ifElse test thenBranch none, _, _, same =>
      (test.retraces_live same).append fun _ _ _ same => thenBranch.retraces_live same
  | .ifElse test thenBranch (some elseBranch), _, _, same =>
      (test.retraces_live same).append fun _ _ _ same =>
        (thenBranch.retraces_live same).append fun _ _ _ same => elseBranch.retraces_live same
  | .whileLoop test body, _, _, same =>
      (test.retraces_live same).append fun _ _ _ same => body.retraces_live same
  | .function f, _, _, same => by
      have hname : f.live.displayName = f.displayName := by
        cases f
        rfl
      rw [Stmt.steps, Stmt.live, Stmt.steps, hname]
      exact Retraces.append (.introduce same f.displayName) fun _ _ _ same => f.retraces_live same
  | .ret none, _, _, same => .exit same
  | .ret (some value), _, _, same =>
      Retraces.append (x := [.exit]) (y := [.exit]) (.exit same) fun _ _ _ same => value.retraces_live same
  | .classDecl name methods, _, _, same =>
      Retraces.append (.introduce same name) fun _ _ _ same =>
        .methods same fun _ _ same => Function.retraces_liveAll methods same

/-- The analysis of statements up to the first `return` among them. The names at the end differ. -/
theorem Stmt.retraces_liveAll : ∀ (ss : List Stmt) {n n' : Names}, n.Same n' →
    Retraces False Eq t t (fun _ _ => True) (Stmt.stepsOfAll ss) (Stmt.stepsOfAll (Stmt.liveAll ss)) n n'
  | [], _, _, same => (Retraces.nil same).forget
  | s :: rest, _, _, same => by
      rw [Stmt.liveAll]
      cases s.isReturn with
      | false => exact (s.retraces_live same).append fun _ _ _ same => Stmt.retraces_liveAll rest same
      | true =>
          have hlast : Stmt.stepsOfAll [s.live] = s.live.steps := by simp [Stmt.stepsOfAll]
          exact hlast ▸ (s.retraces_live same).cut (Stmt.stepsOfAll rest)

theorem Function.retraces_live {kind : FunctionKind} : ∀ (f : Function) {n n' : Names}, n.Same n' →
    Retraces False Eq t t Names.Same (f.steps kind) (f.live.steps kind) n n'
  | ⟨_, _, _, body⟩, _, _, same => .function same rfl fun _ _ _ same => Stmt.retraces_liveAll body same

theorem Function.retraces_liveAll : ∀ (fs : List Function) {n n' : Names}, n.Same n' →
    Retraces False Eq t t Names.Same (Function.stepsOfAll fs)
      (Function.stepsOfAll (Function.liveAll fs)) n n'
  | [], _, _, same => .nil same
  | f :: rest, _, _, same =>
      (f.retraces_live same).append fun _ _ _ same => Function.retraces_liveAll rest same

end

/-- The analysis of a program without what comes after a `return`. -/
theorem Program.retraces_live (p : Program) {n n' : Names} (same : n.Same n') :
    Retraces False Eq t t Names.Same (Program.steps p) (Program.steps p.live) n n' := by
  induction p generalizing n n' with
  | nil => exact .nil same
  | cons node rest ih => exact (node.value.retraces_live same).append fun _ _ _ same => ih same

end Scoping

end Kiln
