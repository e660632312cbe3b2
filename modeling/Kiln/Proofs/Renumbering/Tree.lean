/-
Module: Kiln.Proofs.Renumbering.Tree
Purpose: Programs with other ids. A renumbering gives every reference another id and leaves all else of a tree as
  it is: the names, the shapes, and what functions are called.
Main exports: Expr.renumber, Stmt.renumber, Function.renumber, Program.renumber
-/
import Kiln.Tree.Basic

namespace Kiln

/-- The place that is written to, under another id. -/
def Variable.renumber (f : NodeId → NodeId) (v : Variable) : Variable := ⟨v.name, f v.id⟩

mutual

/-- An expression with other ids. -/
def Expr.renumber (f : NodeId → NodeId) : Expr → Expr
  | .number value => .number value
  | .text value => .text value
  | .bool value => .bool value
  | .var name id => .var name (f id)
  | .this id => .this (f id)
  | .binary op left right => .binary op (left.renumber f) (right.renumber f)
  | .logical op left right => .logical op (left.renumber f) (right.renumber f)
  | .unary op operand => .unary op (operand.renumber f)
  | .member object property => .member (object.renumber f) property
  | .call callee args => .call (callee.renumber f) (Expr.renumberAll f args)
  | .lambda function => .lambda (function.renumber f)

/-- Several expressions with other ids. -/
def Expr.renumberAll (f : NodeId → NodeId) : List Expr → List Expr
  | [] => []
  | e :: rest => e.renumber f :: Expr.renumberAll f rest

/-- A statement with other ids. -/
def Stmt.renumber (f : NodeId → NodeId) : Stmt → Stmt
  | .expr e => .expr (e.renumber f)
  | .declare name value => .declare name (value.renumber f)
  | .assign target value => .assign (target.renumber f) (value.renumber f)
  | .update target op => .update (target.renumber f) op
  | .setMember object property value => .setMember (object.renumber f) property (value.renumber f)
  | .block body => .block (Stmt.renumberAll f body)
  | .ifElse test thenBranch none => .ifElse (test.renumber f) (thenBranch.renumber f) none
  | .ifElse test thenBranch (some elseBranch) =>
    .ifElse (test.renumber f) (thenBranch.renumber f) (some (elseBranch.renumber f))
  | .whileLoop test body => .whileLoop (test.renumber f) (body.renumber f)
  | .function function => .function (function.renumber f)
  | .ret none => .ret none
  | .ret (some value) => .ret (some (value.renumber f))
  | .classDecl name methods => .classDecl name (Function.renumberAll f methods)

/-- Several statements with other ids. -/
def Stmt.renumberAll (f : NodeId → NodeId) : List Stmt → List Stmt
  | [] => []
  | s :: rest => s.renumber f :: Stmt.renumberAll f rest

/-- A function with other ids in its body. -/
def Function.renumber (f : NodeId → NodeId) : Function → Function
  | ⟨name, params, returnType, body⟩ => ⟨name, params, returnType, Stmt.renumberAll f body⟩

/-- Several functions with other ids in their bodies. -/
def Function.renumberAll (f : NodeId → NodeId) : List Function → List Function
  | [] => []
  | function :: rest => function.renumber f :: Function.renumberAll f rest

end

/-- A program with other ids. -/
def Program.renumber (f : NodeId → NodeId) (p : Program) : Program :=
  p.map fun node => ⟨node.line, node.value.renumber f⟩

@[simp]
theorem Function.displayName_renumber (f : NodeId → NodeId) (function : Function) :
    (function.renumber f).displayName = function.displayName := by
  cases function
  rfl

@[simp]
theorem Function.paramNames_renumber (f : NodeId → NodeId) (function : Function) :
    (function.renumber f).paramNames = function.paramNames := by
  cases function
  rfl

@[simp]
theorem Function.body_renumber (f : NodeId → NodeId) (function : Function) :
    (function.renumber f).body = Stmt.renumberAll f function.body := by
  cases function
  rfl

end Kiln
