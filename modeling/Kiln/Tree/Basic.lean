/-
Module: Kiln.Tree.Basic
Purpose: Programs as trees. Expressions and statements are mutually recursive, because an unnamed
  function is an expression whose body is a list of statements. Every place that refers to a variable
  carries an id of its own, to which the scope analysis attaches what it finds out.
Main exports: NodeId, BinaryOp, LogicalOp, UnaryOp, UpdateOp, Variable, Param, Expr, Stmt, Function,
  Program
-/
import Kiln.Located

namespace Kiln

/-- The identity of a reference to a variable. -/
structure NodeId where
  index : Nat
deriving DecidableEq, Repr, Inhabited, Hashable

/-- How many different ids the parser can draw, which is 2 to the 32nd. -/
def NodeId.count : Nat := 4294967296

/-- The operators that work on two evaluated operands. -/
inductive BinaryOp where
  | add
  | sub
  | mul
  | div
  | mod
  | pow
  | less
  | greater
  | lessEqual
  | greaterEqual
  | equal
  | notEqual
deriving DecidableEq, Repr, Inhabited

/-- The operators that evaluate their right operand only when the left one leaves the answer open. -/
inductive LogicalOp where
  | and
  | or
deriving DecidableEq, Repr, Inhabited

/-- The operators with one operand. -/
inductive UnaryOp where
  | not
  | negate
deriving DecidableEq, Repr, Inhabited

/-- The statements that change a variable by one. -/
inductive UpdateOp where
  | increment
  | decrement
deriving DecidableEq, Repr, Inhabited

/-- How a binary operator is written. -/
def BinaryOp.text : BinaryOp → String
  | .add => "+"
  | .sub => "-"
  | .mul => "*"
  | .div => "/"
  | .mod => "%"
  | .pow => "**"
  | .less => "<"
  | .greater => ">"
  | .lessEqual => "<="
  | .greaterEqual => ">="
  | .equal => "=="
  | .notEqual => "!="

/-- All binary operators. -/
def BinaryOp.all : List BinaryOp :=
  [.add, .sub, .mul, .div, .mod, .pow, .less, .greater, .lessEqual, .greaterEqual, .equal, .notEqual]

/-- The binary operator that is written as `text`. -/
def BinaryOp.ofText? (text : String) : Option BinaryOp :=
  BinaryOp.all.find? (fun op => op.text == text)

/-- How a logical operator is written. -/
def LogicalOp.text : LogicalOp → String
  | .and => "&&"
  | .or => "||"

/-- The logical operator that is written as `text`. -/
def LogicalOp.ofText? (text : String) : Option LogicalOp :=
  [LogicalOp.and, LogicalOp.or].find? (fun op => op.text == text)

/-- How a unary operator is written. -/
def UnaryOp.text : UnaryOp → String
  | .not => "!"
  | .negate => "-"

/-- How an update is written. -/
def UpdateOp.text : UpdateOp → String
  | .increment => "++"
  | .decrement => "--"

/-- The binary operator by which an update changes its variable. -/
def UpdateOp.binary : UpdateOp → BinaryOp
  | .increment => .add
  | .decrement => .sub

/-- A place that is written to. -/
structure Variable where
  name : String
  id : NodeId
deriving DecidableEq, Repr, Inhabited

/-- A parameter. Its type is kept for readers of the tree; running a program never looks at it. -/
structure Param where
  name : String
  type : Option String
deriving DecidableEq, Repr, Inhabited

mutual

/-- Expressions. -/
inductive Expr where
  | number (value : Int64)
  | text (value : String)
  | bool (value : Bool)
  | var (name : String) (id : NodeId)
  | this (id : NodeId)
  | binary (op : BinaryOp) (left right : Expr)
  | logical (op : LogicalOp) (left right : Expr)
  | unary (op : UnaryOp) (operand : Expr)
  | member (object : Expr) (property : String)
  | call (callee : Expr) (args : List Expr)
  | lambda (function : Function)

/-- Statements. -/
inductive Stmt where
  | expr (e : Expr)
  /-- Declares a variable in the current scope. -/
  | declare (name : String) (value : Expr)
  /-- Writes to a variable that exists already. -/
  | assign (target : Variable) (value : Expr)
  | update (target : Variable) (op : UpdateOp)
  /-- Writes to a field of an object. -/
  | setMember (object : Expr) (property : String) (value : Expr)
  | block (body : List Stmt)
  | ifElse (test : Expr) (thenBranch : Stmt) (elseBranch : Option Stmt)
  | whileLoop (test : Expr) (body : Stmt)
  | function (function : Function)
  | ret (value : Option Expr)
  | classDecl (name : String) (methods : List Function)

/-- What declared functions, methods and unnamed functions have in common. -/
structure Function where
  name : Option String
  params : List Param
  returnType : Option String
  body : List Stmt

end

instance : Inhabited Expr := ⟨.bool false⟩

instance : Inhabited Stmt := ⟨.block []⟩

/-- The name under which a function is shown and declared. -/
def Function.displayName (f : Function) : String := f.name.getD "anonymous"

/-- The names of the parameters, in order. -/
def Function.paramNames (f : Function) : List String := f.params.map (·.name)

/-- A program: its top-level statements, each with the line on which it starts. -/
abbrev Program := List (Located Stmt)

end Kiln
