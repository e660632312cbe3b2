/-
Module: Kiln.Tree.Outline
Purpose: Outlines, in which every node of a tree is spelled out on lines of its own, and the outline of a
  program. Each part of a node stands on its own line, four spaces further in, with a comma after it.
Main exports: Outline, Outline.render, Outline.ofProgram
-/
import Kiln.Number.Decimal
import Kiln.Text.Quoted
import Kiln.Tree.Basic

namespace Kiln

open Kiln.Text

/-- What an outline is made of. -/
inductive Outline where
  /-- A piece of text without parts. -/
  | leaf (text : String)
  /-- A node with named parts. -/
  | record (name : String) (parts : List (String × Outline))
  /-- A node around one part that needs no name. -/
  | wrapper (name : String) (part : Outline)
  | list (items : List Outline)

namespace Outline

/-- The space before a line at some depth. -/
def margin (depth : Nat) : String := String.ofList (List.replicate (4 * depth) ' ')

mutual

/-- The text of an outline whose first line stands at some depth. -/
def renderAt (depth : Nat) : Outline → String
  | .leaf text => text
  | .record name parts => name ++ " \x7b\n" ++ renderParts depth parts ++ margin depth ++ "\x7d"
  | .wrapper name part =>
    name ++ "(\n" ++ margin (depth + 1) ++ renderAt (depth + 1) part ++ ",\n" ++ margin depth ++ ")"
  | .list [] => "[]"
  | .list (first :: rest) =>
    "[\n" ++ margin (depth + 1) ++ renderAt (depth + 1) first ++ ",\n" ++ renderItems depth rest
      ++ margin depth ++ "]"

/-- The lines of the named parts of a node. -/
def renderParts (depth : Nat) : List (String × Outline) → String
  | [] => ""
  | (name, part) :: rest =>
    margin (depth + 1) ++ name ++ ": " ++ renderAt (depth + 1) part ++ ",\n"
      ++ renderParts depth rest

/-- The lines of the items of a list. -/
def renderItems (depth : Nat) : List Outline → String
  | [] => ""
  | item :: rest =>
    margin (depth + 1) ++ renderAt (depth + 1) item ++ ",\n" ++ renderItems depth rest

end

/-- The text of an outline. -/
def render (outline : Outline) : String := renderAt 0 outline

/-! ### Outlines of the parts of a program -/

/-- A text between quotes. -/
def ofText (text : String) : Outline := .leaf (quoted text)

/-- Something that may be missing. -/
def ofOption : Option Outline → Outline
  | none => .leaf "None"
  | some part => .wrapper "Some" part

/-- An id. -/
def ofId (id : NodeId) : Outline := .wrapper "NodeId" (.leaf (toString id.index))

/-- The name of a binary operator. -/
def ofBinaryOp (op : BinaryOp) : Outline :=
  .leaf <| match op with
  | .add => "Add"
  | .sub => "Sub"
  | .mul => "Mul"
  | .div => "Div"
  | .mod => "Mod"
  | .pow => "Pow"
  | .less => "Less"
  | .greater => "Greater"
  | .lessEqual => "LessEqual"
  | .greaterEqual => "GreaterEqual"
  | .equal => "Equal"
  | .notEqual => "NotEqual"

/-- The name of a logical operator. -/
def ofLogicalOp : LogicalOp → Outline
  | .and => .leaf "And"
  | .or => .leaf "Or"

/-- The name of a unary operator. -/
def ofUnaryOp : UnaryOp → Outline
  | .not => .leaf "Not"
  | .negate => .leaf "Negate"

/-- The name of an update. -/
def ofUpdateOp : UpdateOp → Outline
  | .increment => .leaf "Increment"
  | .decrement => .leaf "Decrement"

/-- A place that is written to. -/
def ofVariable (v : Variable) : Outline :=
  .record "Variable" [("name", ofText v.name), ("id", ofId v.id)]

/-- A parameter. -/
def ofParam (p : Param) : Outline :=
  .record "Param" [("name", ofText p.name), ("annotation", ofOption (p.type.map ofText))]

mutual

/-- An expression. -/
def ofExpr : Expr → Outline
  | .number value => .record "NumberLiteral" [("value", .leaf (Decimal.write value))]
  | .text value => .record "StringLiteral" [("value", ofText value)]
  | .bool value => .record "BooleanLiteral" [("value", .leaf (if value then "true" else "false"))]
  | .var name id => .record "Identifier" [("symbol", ofText name), ("id", ofId id)]
  | .this id => .record "This" [("id", ofId id)]
  | .binary op left right =>
    .record "BinaryOp"
      [("left", ofExpr left), ("right", ofExpr right), ("operator", ofBinaryOp op)]
  | .logical op left right =>
    .record "Logical"
      [("left", ofExpr left), ("right", ofExpr right), ("operator", ofLogicalOp op)]
  | .unary op operand =>
    .record "Unary" [("operator", ofUnaryOp op), ("operand", ofExpr operand)]
  | .member object property =>
    .record "MemberCall" [("member", ofExpr object), ("property", ofText property)]
  | .call callee args =>
    .record "FunctionCall" [("caller", ofExpr callee), ("args", .list (ofExprs args))]
  | .lambda f => .wrapper "Lambda" (ofFunction f)

/-- Several expressions. -/
def ofExprs : List Expr → List Outline
  | [] => []
  | e :: rest => ofExpr e :: ofExprs rest

/-- A statement. -/
def ofStmt : Stmt → Outline
  | .expr e => .wrapper "Expression" (ofExpr e)
  | .declare name value =>
    .record "VarDeclaration" [("name", ofText name), ("value", ofExpr value)]
  | .assign target value =>
    .record "VarAssignment" [("target", ofVariable target), ("value", ofExpr value)]
  | .update target op =>
    .record "Update" [("target", ofVariable target), ("operator", ofUpdateOp op)]
  | .setMember object property value =>
    .record "SetMember"
      [("object", ofExpr object), ("property", ofText property), ("value", ofExpr value)]
  | .block body => .wrapper "Block" (.list (ofStmts body))
  | .ifElse test thenBranch none =>
    .record "If"
      [("test", ofExpr test), ("consequent", ofStmt thenBranch), ("alternate", ofOption none)]
  | .ifElse test thenBranch (some elseBranch) =>
    .record "If"
      [("test", ofExpr test), ("consequent", ofStmt thenBranch),
        ("alternate", ofOption (some (ofStmt elseBranch)))]
  | .whileLoop test body => .record "While" [("test", ofExpr test), ("body", ofStmt body)]
  | .function f => .wrapper "FnDeclaration" (ofFunction f)
  | .ret none => .record "Return" [("value", ofOption none)]
  | .ret (some value) => .record "Return" [("value", ofOption (some (ofExpr value)))]
  | .classDecl name methods =>
    .record "ClassDeclaration" [("name", ofText name), ("methods", .list (ofFunctions methods))]

/-- Several statements. -/
def ofStmts : List Stmt → List Outline
  | [] => []
  | s :: rest => ofStmt s :: ofStmts rest

/-- A function. -/
def ofFunction : Function → Outline
  | ⟨name, params, returnType, body⟩ =>
    .record "FunctionDecl"
      [("name", ofOption (name.map ofText)), ("params", .list (params.map ofParam)),
        ("return_type", ofOption (returnType.map ofText)), ("body", .list (ofStmts body))]

/-- Several functions. -/
def ofFunctions : List Function → List Outline
  | [] => []
  | f :: rest => ofFunction f :: ofFunctions rest

end

/-- A program. -/
def ofProgram (program : Program) : Outline :=
  .record "Program"
    [("nodes", .list (program.map fun node =>
      .record "ASTNode" [("stmt", ofStmt node.value), ("line", .leaf (toString node.line))]))]

end Outline

end Kiln
