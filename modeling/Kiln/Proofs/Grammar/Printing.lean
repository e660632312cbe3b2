/-
Module: Kiln.Proofs.Grammar.Printing
Purpose: Writing trees as tokens. An expression is put between parentheses only where its operator binds
  looser than its place asks for, and operators of one level associate to the left. The levels and the
  signs of the operators are written out here, operator by operator, and not taken from the parser.
  Statements follow each other without separators, so not every list of statements can be written:
  those that can are the well-formed ones.
Main exports: BinaryOp.rank, LogicalOp.rank, Expr.rank, Expr.bare, Expr.printed, Stmt.print,
  Stmt.printAll, Stmt.wellFormed, Stmt.wellFormedAll, Expr.skeleton, Stmt.skeleton, Program.skeleton
-/
import Kiln.Number.Decimal
import Kiln.Proofs.Scoping.Discipline
import Kiln.Proofs.Tree.Names
import Kiln.Token.Basic

namespace Kiln

/-! ### Levels -/

/-- How tightly a logical operator binds. Both bind looser than all other operators. -/
def LogicalOp.rank : LogicalOp → Nat
  | .or => 0
  | .and => 1

/-- How tightly a binary operator binds: equality, then comparisons, sums, and products with powers. -/
def BinaryOp.rank : BinaryOp → Nat
  | .equal | .notEqual => 2
  | .less | .greater | .lessEqual | .greaterEqual => 3
  | .add | .sub => 4
  | .mul | .div | .mod | .pow => 5

/-- How tightly the outermost operator of an expression binds: unary operators bind tighter than all binary
    ones, calls and member accesses tighter than these, and what needs no operator tightest. -/
def Expr.rank : Expr → Nat
  | .binary op _ _ => op.rank
  | .logical op _ _ => op.rank
  | .unary _ _ => 6
  | .member _ _ | .call _ _ => 7
  | _ => 8

/-! ### Tokens -/

namespace Token

/-- A token of a printed program. All of them stand on one line. -/
def printed (kind : TokenKind) (value : String) : Token := ⟨kind, value, 0⟩

/-- The token for a name. -/
def name (value : String) : Token := printed .identifier value

def openParen : Token := printed .openParen "("

def closeParen : Token := printed .closeParen ")"

def openBrace : Token := printed .openBrace "\x7b"

def closeBrace : Token := printed .closeBrace "\x7d"

def comma : Token := printed .comma ","

def dot : Token := printed .dot "."

end Token

/-- The sign of a binary operator. -/
def BinaryOp.sign : BinaryOp → String
  | .add => "+"
  | .sub => "-"
  | .mul => "*"
  | .div => "/"
  | .mod => "%"
  | .pow => "**"
  | .equal => "=="
  | .notEqual => "!="
  | .less => "<"
  | .greater => ">"
  | .lessEqual => "<="
  | .greaterEqual => ">="

/-- The sign of a logical operator. -/
def LogicalOp.sign : LogicalOp → String
  | .and => "&&"
  | .or => "||"

/-- The token for a binary operator. -/
def BinaryOp.token (op : BinaryOp) : Token := .printed .binaryOperator op.sign

/-- The token for a logical operator. -/
def LogicalOp.token (op : LogicalOp) : Token := .printed .logicalOperator op.sign

/-- The token for an operator before its operand. -/
def UnaryOp.token : UnaryOp → Token
  | .not => .printed .bang "!"
  | .negate => .printed .binaryOperator "-"

/-- The token for an update. -/
def UpdateOp.token : UpdateOp → Token
  | .increment => .printed .increment "++"
  | .decrement => .printed .decrement "--"

/-- Puts tokens between parentheses if `needed`. -/
def parenthesized (needed : Bool) (tokens : List Token) : List Token :=
  if needed then .openParen :: tokens ++ [.closeParen] else tokens

/-- The tokens for a type, if there is one. -/
def typeTokens : Option String → List Token
  | none => []
  | some type => [.name type]

/-- The tokens for a parameter. -/
def Param.tokens (p : Param) : List Token := .name p.name :: typeTokens p.type

/-- The tokens for the parameters after the first one. -/
def Param.tokensOfMore : List Param → List Token
  | [] => []
  | p :: rest => .comma :: p.tokens ++ Param.tokensOfMore rest

/-- The tokens for the parameters of a function. -/
def Param.tokensOfAll : List Param → List Token
  | [] => []
  | p :: rest => p.tokens ++ Param.tokensOfMore rest

/-- The tokens for the parameters of a function between parentheses, and for the type that it returns. -/
def headTokens (params : List Param) (returnType : Option String) : List Token :=
  .openParen :: Param.tokensOfAll params ++ .closeParen :: typeTokens returnType

/-! ### Trees -/

mutual

/-- The tokens for an expression in a place that asks for no operator in particular. -/
def Expr.bare : Expr → List Token
  | .number value => [.printed .number (Decimal.write value)]
  | .text value => [.printed .text value]
  | .bool true => [.printed .trueWord "true"]
  | .bool false => [.printed .falseWord "false"]
  | .var name _ => [.name name]
  | .this _ => [.printed .thisWord "this"]
  | .binary op left right =>
    parenthesized (left.rank < op.rank) left.bare
      ++ op.token :: parenthesized (right.rank < op.rank + 1) right.bare
  | .logical op left right =>
    parenthesized (left.rank < op.rank) left.bare
      ++ op.token :: parenthesized (right.rank < op.rank + 1) right.bare
  | .unary op operand => op.token :: parenthesized (operand.rank < 6) operand.bare
  | .member object property =>
    parenthesized (object.rank < 7) object.bare ++ [.dot, .name property]
  | .call callee args =>
    parenthesized (callee.rank < 7) callee.bare ++ .openParen :: Expr.printArgs args ++ [.closeParen]
  | .lambda f => headTokens f.params f.returnType ++ .printed .arrow "=>" :: f.printBody

/-- The tokens for arguments. -/
def Expr.printArgs : List Expr → List Token
  | [] => []
  | first :: rest => first.bare ++ Expr.printMoreArgs rest

/-- The tokens for the arguments after the first one. -/
def Expr.printMoreArgs : List Expr → List Token
  | [] => []
  | next :: rest => .comma :: next.bare ++ Expr.printMoreArgs rest

/-- The tokens for a statement. -/
def Stmt.print : Stmt → List Token
  | .expr e => e.bare
  | .declare name value => .name name :: .printed .declare ":=" :: value.bare
  | .assign target value => .name target.name :: .printed .equals "=" :: value.bare
  | .update target op => [.name target.name, op.token]
  | .setMember object property value =>
    parenthesized (object.rank < 7) object.bare
      ++ .dot :: .name property :: .printed .equals "=" :: value.bare
  | .block body => .openBrace :: Stmt.printAll body ++ [.closeBrace]
  | .ifElse test thenBranch none => .printed .ifWord "if" :: test.bare ++ thenBranch.print
  | .ifElse test thenBranch (some elseBranch) =>
    .printed .ifWord "if" :: test.bare ++ thenBranch.print
      ++ .printed .elseWord "else" :: elseBranch.print
  | .whileLoop test body => .printed .whileWord "while" :: test.bare ++ body.print
  | .function f => .printed .funcWord "func" :: f.printNamed
  | .ret none => [.printed .returnWord "return"]
  | .ret (some value) => .printed .returnWord "return" :: value.bare
  | .classDecl name methods => .printed .classWord "class" :: .name name :: .openBrace
    :: Function.printAll methods ++ [.closeBrace]

/-- The tokens for statements one after the other. -/
def Stmt.printAll : List Stmt → List Token
  | [] => []
  | s :: rest => s.print ++ Stmt.printAll rest

/-- The tokens for the body of a function. -/
def Function.printBody : Function → List Token
  | ⟨_, _, _, body⟩ => .openBrace :: Stmt.printAll body ++ [.closeBrace]

/-- The tokens for a declared function or a method, from its name on. -/
def Function.printNamed : Function → List Token
  | ⟨name, params, returnType, body⟩ =>
    .name (name.getD "") :: headTokens params returnType
      ++ .openBrace :: Stmt.printAll body ++ [.closeBrace]

/-- The tokens for methods one after the other. -/
def Function.printAll : List Function → List Token
  | [] => []
  | f :: rest => f.printNamed ++ Function.printAll rest

end

/-- The tokens for an expression in a place that asks for operators that bind at least as tightly as
    `rank`. -/
def Expr.printed (rank : Nat) (e : Expr) : List Token := parenthesized (e.rank < rank) e.bare

/-! ### Well-formed trees -/

/-- Whether tokens begin with an opening parenthesis or a minus sign, which both can also go on with an
    expression before them. -/
def opensTight (tokens : List Token) : Bool :=
  match tokens.head? with
  | none => false
  | some t => t.kind == .openParen || t.kind == .binaryOperator && t.value == "-"

namespace Stmt

/-- Whether the last thing in a statement is an expression. -/
def endsInExpr : Stmt → Bool
  | .expr _ | .declare _ _ | .assign _ _ | .setMember _ _ _ | .ret (some _) => true
  | _ => false

/-- Whether a statement is a `return` without a value. -/
def isBareReturn : Stmt → Bool
  | .ret none => true
  | _ => false

/-- Whether the statements `rest` can follow a statement in a list: nothing follows a `return` without a
    value, and what follows an expression does not go on with it. -/
def precedes (s : Stmt) : List Stmt → Bool
  | [] => true
  | next :: _ => !s.isBareReturn && !(s.endsInExpr && opensTight next.print)

end Stmt

mutual

/-- Whether all parts of an expression can be written. -/
def Expr.wellFormed : Expr → Bool
  | .number value => 0 ≤ value
  | .text _ | .bool _ | .var _ _ | .this _ => true
  | .binary _ left right | .logical _ left right => left.wellFormed && right.wellFormed
  | .unary _ operand => operand.wellFormed
  | .member object _ => object.wellFormed
  | .call callee args => callee.wellFormed && Expr.wellFormedAll args
  | .lambda f => f.name.isNone && f.wellFormed

/-- Whether several expressions are well formed. -/
def Expr.wellFormedAll : List Expr → Bool
  | [] => true
  | e :: rest => e.wellFormed && Expr.wellFormedAll rest

/-- Whether a statement can be written: branches and loop bodies are blocks, or after `else` another `if`, and
    functions have names. -/
def Stmt.wellFormed : Stmt → Bool
  | .expr e => e.wellFormed
  | .declare _ value | .assign _ value => value.wellFormed
  | .update _ _ => true
  | .setMember object _ value => object.wellFormed && value.wellFormed
  | .block body => Stmt.wellFormedAll body
  | .ifElse test thenBranch none =>
    test.wellFormed && thenBranch.isBlock && thenBranch.wellFormed
  | .ifElse test thenBranch (some elseBranch) =>
    test.wellFormed && thenBranch.isBlock && thenBranch.wellFormed && elseBranch.isAlternative
      && elseBranch.wellFormed
  | .whileLoop test body => test.wellFormed && body.isBlock && body.wellFormed
  | .function f => f.name.isSome && f.wellFormed
  | .ret none => true
  | .ret (some value) => value.wellFormed
  | .classDecl _ methods => Function.wellFormedAll methods

/-- Whether statements can be written one after the other. -/
def Stmt.wellFormedAll : List Stmt → Bool
  | [] => true
  | s :: rest => s.wellFormed && s.precedes rest && Stmt.wellFormedAll rest

/-- Whether the body of a function can be written. -/
def Function.wellFormed : Function → Bool
  | ⟨_, _, _, body⟩ => Stmt.wellFormedAll body

/-- Whether functions can be written as methods. -/
def Function.wellFormedAll : List Function → Bool
  | [] => true
  | f :: rest => f.name.isSome && f.wellFormed && Function.wellFormedAll rest

end

/-! ### Trees up to ids and lines -/

mutual

/-- An expression with all ids forgotten. -/
def Expr.skeleton : Expr → Expr
  | .var name _ => .var name ⟨0⟩
  | .this _ => .this ⟨0⟩
  | .binary op left right => .binary op left.skeleton right.skeleton
  | .logical op left right => .logical op left.skeleton right.skeleton
  | .unary op operand => .unary op operand.skeleton
  | .member object property => .member object.skeleton property
  | .call callee args => .call callee.skeleton (Expr.skeletonOfAll args)
  | .lambda f => .lambda f.skeleton
  | e => e

/-- Several expressions with all ids forgotten. -/
def Expr.skeletonOfAll : List Expr → List Expr
  | [] => []
  | e :: rest => e.skeleton :: Expr.skeletonOfAll rest

/-- A statement with all ids forgotten. -/
def Stmt.skeleton : Stmt → Stmt
  | .expr e => .expr e.skeleton
  | .declare name value => .declare name value.skeleton
  | .assign target value => .assign ⟨target.name, ⟨0⟩⟩ value.skeleton
  | .update target op => .update ⟨target.name, ⟨0⟩⟩ op
  | .setMember object property value => .setMember object.skeleton property value.skeleton
  | .block body => .block (Stmt.skeletonOfAll body)
  | .ifElse test thenBranch none => .ifElse test.skeleton thenBranch.skeleton none
  | .ifElse test thenBranch (some elseBranch) =>
    .ifElse test.skeleton thenBranch.skeleton (some elseBranch.skeleton)
  | .whileLoop test body => .whileLoop test.skeleton body.skeleton
  | .function f => .function f.skeleton
  | .ret none => .ret none
  | .ret (some value) => .ret (some value.skeleton)
  | .classDecl name methods => .classDecl name (Function.skeletonOfAll methods)

/-- Several statements with all ids forgotten. -/
def Stmt.skeletonOfAll : List Stmt → List Stmt
  | [] => []
  | s :: rest => s.skeleton :: Stmt.skeletonOfAll rest

/-- A function with all ids forgotten. -/
def Function.skeleton : Function → Function
  | ⟨name, params, returnType, body⟩ => ⟨name, params, returnType, Stmt.skeletonOfAll body⟩

/-- Several functions with all ids forgotten. -/
def Function.skeletonOfAll : List Function → List Function
  | [] => []
  | f :: rest => f.skeleton :: Function.skeletonOfAll rest

end

/-- A program with all ids and lines forgotten. -/
def Program.skeleton (p : Program) : List Stmt := Stmt.skeletonOfAll p.statements

end Kiln
