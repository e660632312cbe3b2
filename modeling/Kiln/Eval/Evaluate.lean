/-
Module: Kiln.Eval.Evaluate
Purpose: Evaluation of expressions and execution of statements. Operands and arguments are evaluated
  from left to right. Programs may run forever, so every rule takes a bound that falls with each rule
  inside it; when it is used up the outcome says so. A larger bound never changes an outcome that a
  smaller one reached.
Main exports: Evaluate.expr, Evaluate.call, Evaluate.stmt
-/
import Kiln.Eval.Basic

namespace Kiln.Evaluate

open Eval

/-- Whether a logical operator's answer is known from its left operand alone. -/
def isDecided : LogicalOp → Bool → Bool
  | .and, left => !left
  | .or, left => left

mutual

/-- The value of an expression in a scope. -/
def expr (find : Finder) : Nat → Expr → ScopeId → Eval Value
  | 0, _, _ => throw .outOfFuel
  | _ + 1, .number value, _ => return .number value
  | _ + 1, .text value, _ => return .text value
  | _ + 1, .bool value, _ => return .bool value
  | _ + 1, .var name id, scope => read find scope name id
  | _ + 1, .this id, scope => read find scope "this" id
  | n + 1, .binary op left right, scope => do
    let a ← expr find n left scope
    let b ← expr find n right scope
    ofExcept (Operators.binary op a b)
  | n + 1, .logical op left right, scope => do
    let a ← operand find n op left scope
    if isDecided op a then return .bool a
    return .bool (← operand find n op right scope)
  | n + 1, .unary op e, scope => do
    let a ← expr find n e scope
    ofExcept (Operators.unary op a)
  | n + 1, .member object name, scope => do
    let receiver ← expr find n object scope
    property receiver name
  | n + 1, .call callee args, scope => do
    let f ← expr find n callee scope
    let values ← exprs find n args scope
    call find n f values
  | _ + 1, .lambda function, scope => return .closure (← newClosure function scope)

/-- The values of several expressions, in order. -/
def exprs (find : Finder) : Nat → List Expr → ScopeId → Eval (List Value)
  | 0, _, _ => throw .outOfFuel
  | _ + 1, [], _ => return []
  | n + 1, e :: rest, scope => do
    let value ← expr find n e scope
    let values ← exprs find n rest scope
    return value :: values

/-- The truth value of an operand of a logical operator. -/
def operand (find : Finder) : Nat → LogicalOp → Expr → ScopeId → Eval Bool
  | 0, _, _, _ => throw .outOfFuel
  | n + 1, op, e, scope => do
    match ← expr find n e scope with
    | .bool b => return b
    | value => fail (.nonBooleanOperand op value.kind)

/-- The truth value of the test of an `if` or a `while`. -/
def condition (find : Finder) : Nat → Expr → ScopeId → Eval Bool
  | 0, _, _ => throw .outOfFuel
  | n + 1, e, scope => do
    match ← expr find n e scope with
    | .bool b => return b
    | value => fail (.nonBooleanCondition value.kind)

/-- Calls a value with arguments. Calling a class gives a new instance, on which its method `init` runs
    if it has one. -/
def call (find : Finder) : Nat → Value → List Value → Eval Value
  | 0, _, _ => throw .outOfFuel
  | n + 1, .closure c, args => callClosure find n c args
  | _ + 1, .builtin f _, args => callBuiltin f args
  | n + 1, .classValue c, args => do
    let receiver := Value.object c (← newObject)
    match c.methods["init"]? with
    | some method =>
      let _ ← callClosure find n (← bind c method receiver) args
      return receiver
    | none =>
      if args.isEmpty then return receiver
      else fail (.arityMismatch c.name 0 args.length)
  | _ + 1, value, _ => fail (.notCallable value.kind)

/-- Calls a function. Its parameters and the variables of its body share one new scope inside the scope
    in which it was created. -/
def callClosure (find : Finder) : Nat → Closure → List Value → Eval Value
  | 0, _, _ => throw .outOfFuel
  | n + 1, c, args => do
    let names := c.function.paramNames
    if args.length ≠ names.length then
      fail (.arityMismatch c.function.displayName names.length args.length)
    else
      let scope ← newScope (.call c.function) c.scope
      defineAll scope (names.zip args)
      match ← stmts find n c.function.body scope with
      | .returned value => return value
      | .normal _ => return .void

/-- Executes a statement in a scope. -/
def stmt (find : Finder) : Nat → Stmt → ScopeId → Eval Completion
  | 0, _, _ => throw .outOfFuel
  | n + 1, .expr e, scope => return .normal (← expr find n e scope)
  | n + 1, .declare name e, scope => do
    let value ← expr find n e scope
    define scope name value
    return .normal value
  | n + 1, .assign target e, scope => do
    let value ← expr find n e scope
    write find scope target value
    return .normal value
  | _ + 1, .update target op, scope => do
    let old ← read find scope target.name target.id
    let new ← ofExcept (Operators.binary op.binary old (.number 1))
    write find scope target new
    return .normal .void
  | n + 1, .setMember object name e, scope => do
    match ← expr find n object scope with
    | .object _ id =>
      let value ← expr find n e scope
      setField id name value
      return .normal .void
    | other => fail (.notAnInstance other.kind)
  | n + 1, .block body, scope => do
    let inner ← newScope (.block body) scope
    stmts find n body inner
  | n + 1, .ifElse test thenBranch elseBranch, scope => do
    if ← condition find n test scope then
      stmt find n thenBranch scope
    else
      match elseBranch with
      | some branch => stmt find n branch scope
      | none => return .normal .void
  | n + 1, .whileLoop test body, scope => loop find n test body scope
  | _ + 1, .function f, scope => do
    define scope f.displayName (.closure (← newClosure f scope))
    return .normal .void
  | _ + 1, .ret none, _ => return .returned .void
  | n + 1, .ret (some e), scope => return .returned (← expr find n e scope)
  | _ + 1, .classDecl name methods, scope => do
    define scope name .void
    let c := Class.ofFunctions (← newIdentity) name methods scope
    define scope name (.classValue c)
    return .normal .void

/-- Executes statements in order, up to the first that returns. -/
def stmts (find : Finder) : Nat → List Stmt → ScopeId → Eval Completion
  | 0, _, _ => throw .outOfFuel
  | _ + 1, [], _ => return .normal .void
  | n + 1, s :: rest, scope => do
    match ← stmt find n s scope with
    | .returned value => return .returned value
    | .normal _ => stmts find n rest scope

/-- Executes the body of a loop as long as the test holds, or until the body returns. -/
def loop (find : Finder) : Nat → Expr → Stmt → ScopeId → Eval Completion
  | 0, _, _, _ => throw .outOfFuel
  | n + 1, test, body, scope => do
    if ← condition find n test scope then
      match ← stmt find n body scope with
      | .returned value => return .returned value
      | .normal _ => loop find n test body scope
    else
      return .normal .void

end

/-- Executes top-level statements in order. A failure is placed on the line where its statement
    starts. -/
def program (find : Finder) (fuel : Nat) (scope : ScopeId) :
    Program → EStateM (Located Halt) World (List Value)
  | [] => return []
  | node :: rest => do
    let completion ← EStateM.adaptExcept (Located.mk node.line) (stmt find fuel node.value scope)
    return completion.value :: (← program find fuel scope rest)

end Kiln.Evaluate
