/-
Module: Kiln.Scoping.Analysis
Purpose: The scope analysis of a program. It walks over the tree in the order of the source, opens a
  scope for every block, function and class, and notes for each reference how far out its variable
  lives. It rejects repeated declarations, variables that are read in their own first value, and
  `return` outside of functions.
Main exports: Scoping.expr, Scoping.stmt, Scoping.function, resolve
-/
import Kiln.Scoping.Names

namespace Kiln

namespace Scoping

open Resolver

/-- The parameters of a function are names of its scope. -/
def params : List Param → Resolver Unit
  | [] => return ()
  | p :: rest => do
    introduce p.name
    params rest

mutual

/-- The references in an expression. -/
def expr : Expr → Resolver Unit
  | .number _ | .text _ | .bool _ => return ()
  | .var name id => do
    refuseSelfReference name
    locate id name
  | .this id => locate id "this"
  | .binary _ left right | .logical _ left right => do
    expr left
    expr right
  | .unary _ operand => expr operand
  | .member object _ => expr object
  | .call callee args => do
    expr callee
    exprs args
  | .lambda f => function .function f

/-- The references in several expressions. -/
def exprs : List Expr → Resolver Unit
  | [] => return ()
  | e :: rest => do
    expr e
    exprs rest

/-- The references and declarations in a statement. The name of a function or class is ready before its
    body, so that the body can refer to it. -/
def stmt : Stmt → Resolver Unit
  | .expr e => expr e
  | .declare name value => do
    declare name
    expr value
    define name
  | .assign target value => do
    expr value
    locate target.id target.name
  | .update target _ => locate target.id target.name
  | .setMember object _ value => do
    expr object
    expr value
  | .block body => inScope (stmts body)
  | .ifElse test thenBranch none => do
    expr test
    stmt thenBranch
  | .ifElse test thenBranch (some elseBranch) => do
    expr test
    stmt thenBranch
    stmt elseBranch
  | .whileLoop test body => do
    expr test
    stmt body
  | .function f => do
    introduce f.displayName
    function .function f
  | .ret none => do
    if (← get).enclosing.isNone then throw .returnOutsideFunction
  | .ret (some value) => do
    if (← get).enclosing.isNone then throw .returnOutsideFunction
    expr value
  | .classDecl name methods => do
    introduce name
    inScope do
      define "this"
      functions methods

/-- The references and declarations in several statements. -/
def stmts : List Stmt → Resolver Unit
  | [] => return ()
  | s :: rest => do
    stmt s
    stmts rest

/-- The parameters and the body of a function share one scope. -/
def function (kind : FunctionKind) : Function → Resolver Unit
  | ⟨_, ps, _, body⟩ => inFunction kind do
    params ps
    stmts body

/-- The methods of a class. -/
def functions : List Function → Resolver Unit
  | [] => return ()
  | f :: rest => do
    function .method f
    functions rest

end

/-- The top-level statements. A failure is placed on the line where its statement starts. -/
def program : Program → EStateM (Located ResolveError) Names Unit
  | [] => return ()
  | node :: rest => do
    EStateM.adaptExcept (Located.mk node.line) (stmt node.value)
    program rest

end Scoping

/-- The lexical distances of all references of a program, or the reason and place of its rejection. -/
def resolve (program : Program) : Except (Located ResolveError) Annotations :=
  match Scoping.program program .initial with
  | .ok () n => .ok n.found
  | .error e _ => .error e

end Kiln
