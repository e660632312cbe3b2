/-
Module: Kiln.Parser.Grammar
Purpose: The grammar. Statements have no separators: each rule takes as many tokens as it can, and the
  next statement begins where it stops. Binary operators are left associative and stand on six levels;
  unary signs, calls and member accesses bind tighter. The rules call each other in ways that no single
  argument bounds, so they carry a depth that falls with every call; the entry points choose it large
  enough for the tokens at hand.
Main exports: Connective, Level, isArrowAhead, parameters, Grammar.expression, Grammar.statement,
  parse
-/
import Kiln.Number.Decimal
import Kiln.Parser.Basic

namespace Kiln

/-! ### Binary operators and their levels -/

/-- An operator between two operands. -/
inductive Connective where
  | binary (op : BinaryOp)
  | logical (op : LogicalOp)
deriving DecidableEq, Repr, Inhabited

/-- The levels of binary operators, from the loosest to the tightest. -/
inductive Level where
  | disjunction
  | conjunction
  | equality
  | relational
  | additive
  | multiplicative
deriving DecidableEq, Repr, Inhabited

/-- All levels, the loosest first. -/
def Level.all : List Level :=
  [.disjunction, .conjunction, .equality, .relational, .additive, .multiplicative]

/-- The level on which an operator stands. -/
def Connective.level : Connective → Level
  | .logical .or => .disjunction
  | .logical .and => .conjunction
  | .binary .equal | .binary .notEqual => .equality
  | .binary .less | .binary .greater | .binary .lessEqual | .binary .greaterEqual => .relational
  | .binary .add | .binary .sub => .additive
  | .binary .mul | .binary .div | .binary .mod | .binary .pow => .multiplicative

/-- The operator that a token writes. -/
def Connective.ofToken? (t : Token) : Option Connective :=
  match t.kind with
  | .binaryOperator => (BinaryOp.ofText? t.value).map .binary
  | .logicalOperator => (LogicalOp.ofText? t.value).map .logical
  | _ => none

/-- The operator that a token writes, if it stands on the given level. -/
def Level.connective? (level : Level) (t : Token) : Option Connective :=
  (Connective.ofToken? t).filter (fun c => c.level = level)

/-- The expression that joins two operands. -/
def Connective.join (c : Connective) (left right : Expr) : Expr :=
  match c with
  | .binary op => .binary op left right
  | .logical op => .logical op left right

/-- The unary operator that a token writes. -/
def UnaryOp.ofToken? (t : Token) : Option UnaryOp :=
  match t.kind with
  | .bang => some .not
  | .binaryOperator => if t.value = "-" then some .negate else none
  | _ => none

/-! ### Looking ahead for an arrow -/

/-- Whether an arrow stands here, at once or after one name, which is then a return type. -/
def isArrowNext : List Token → Bool
  | [] => false
  | t :: rest =>
    t.kind == .arrow
      || t.kind == .identifier && (match rest with
        | [] => false
        | u :: _ => u.kind == .arrow)

/-- Looks for the parenthesis that closes the last of `opened` open ones, and then for an arrow. The end
    of the source stops the search. -/
def isArrowAfter (opened : Nat) : List Token → Bool
  | [] => false
  | t :: rest =>
    match t.kind with
    | .openParen => isArrowAfter (opened + 1) rest
    | .closeParen => if opened ≤ 1 then isArrowNext rest else isArrowAfter (opened - 1) rest
    | .endOfFile => false
    | _ => isArrowAfter opened rest

/-- Whether the parenthesis at the front of `tokens` opens the parameters of an unnamed function. -/
def isArrowAhead (tokens : List Token) : Bool := isArrowAfter 0 tokens

namespace Parser

/-- Whether the parenthesis at the cursor opens the parameters of an unnamed function. -/
def atFunction : Parser Bool := fun c => .ok (isArrowAhead c.tokens) c

/-! ### Parameters -/

/-- A type, if a name stands here. -/
def optionalType : Parser (Option String) := do
  if (← peek).kind = .identifier then
    return some (← take).value
  else
    return none

/-- One parameter: a name, and a type that a colon may precede. -/
def parameter : Parser Param := do
  let name ← expect .identifier (fun t => .expectedParameter t.value)
  let _ ← accept .colon
  return ⟨name.value, ← optionalType⟩

/-- The parameters up to the closing parenthesis, which is taken too. A comma must be followed by
    another parameter. -/
def parametersFrom : Nat → Parser (List Param)
  | 0 => throw .noToken
  | n + 1 => do
    if ← accept .closeParen then return []
    let p ← parameter
    if ← accept .comma then
      let t ← peek
      if t.kind ≠ .identifier then throw (.expectedParameter t.value)
    else if (← peek).kind ≠ .closeParen then
      throw .missingCloseParen
    return p :: (← parametersFrom n)

/-- The parameters between parentheses. -/
def parameters (depth : Nat) : Parser (List Param) := do
  let _ ← expect .openParen (fun t => .wrongToken .openParen t.kind)
  parametersFrom depth

end Parser

/-! ### Expressions and statements -/

namespace Grammar

open Kiln.Parser

/-- An update of the variable `left`. -/
def updateOf (left : Expr) (op : UpdateOp) : Parser Stmt :=
  match left with
  | .var name id => return .update ⟨name, id⟩ op
  | _ => throw .invalidUpdateTarget

mutual

/-- An expression. -/
def expression : Nat → Parser Expr
  | 0 => throw .noToken
  | n + 1 => operands n Level.all

/-- An expression made of the operators on the given levels and of tighter ones. -/
def operands : Nat → List Level → Parser Expr
  | 0, _ => throw .noToken
  | n + 1, [] => unary n
  | n + 1, level :: tighter => do
    let left ← operands n tighter
    chain n level tighter left

/-- The operators of one level that follow `left`, and their right operands. -/
def chain : Nat → Level → List Level → Expr → Parser Expr
  | 0, _, _, _ => throw .noToken
  | n + 1, level, tighter, left => do
    match level.connective? (← peek) with
    | none => return left
    | some c =>
      skip
      let right ← operands n tighter
      chain n level tighter (c.join left right)

/-- Unary signs before a call, a member access or a primary expression. -/
def unary : Nat → Parser Expr
  | 0 => throw .noToken
  | n + 1 => do
    match UnaryOp.ofToken? (← peek) with
    | some op =>
      skip
      return .unary op (← unary n)
    | none =>
      let e ← primary n
      selections n e

/-- The member accesses and calls that follow `e`. -/
def selections : Nat → Expr → Parser Expr
  | 0, _ => throw .noToken
  | n + 1, e => do
    match (← peek).kind with
    | .dot =>
      skip
      let property ← expect .identifier (fun _ => .missingProperty)
      selections n (.member e property.value)
    | .openParen =>
      skip
      let args ← arguments n
      selections n (.call e args)
    | _ => return e

/-- The arguments after an opening parenthesis, and the closing one. -/
def arguments : Nat → Parser (List Expr)
  | 0 => throw .noToken
  | n + 1 => do
    if ← accept .closeParen then return []
    let first ← expression n
    return first :: (← moreArguments n)

/-- The arguments after the first one, and the closing parenthesis. -/
def moreArguments : Nat → Parser (List Expr)
  | 0 => throw .noToken
  | n + 1 => do
    if ← accept .comma then
      let next ← expression n
      return next :: (← moreArguments n)
    else
      let _ ← expect .closeParen (fun _ => .missingCloseParen)
      return []

/-- A literal, a name, an unnamed function or an expression between parentheses. -/
def primary : Nat → Parser Expr
  | 0 => throw .noToken
  | n + 1 => do
    let t ← peek
    match t.kind with
    | .number =>
      skip
      match Decimal.read? t.value with
      | some value => return .number value
      | none => throw (.invalidNumber t.value)
    | .text =>
      skip
      return .text t.value
    | .trueWord =>
      skip
      return .bool true
    | .falseWord =>
      skip
      return .bool false
    | .identifier =>
      skip
      return .var t.value (← freshId)
    | .thisWord =>
      skip
      return .this (← freshId)
    | .openParen =>
      if ← atFunction then
        lambda n
      else
        skip
        let e ← expression n
        let _ ← expect .closeParen (fun _ => .missingCloseParen)
        return e
    | .endOfFile => throw .unexpectedEnd
    | _ => throw (.unexpectedToken t.value)

/-- An unnamed function: parameters, a return type if there is one, an arrow, and the body. -/
def lambda : Nat → Parser Expr
  | 0 => throw .noToken
  | n + 1 => do
    let params ← parameters n
    let returnType ← optionalType
    let _ ← expect .arrow (fun _ => .missingArrow)
    let body ← braced n "arrow function"
    return .lambda ⟨none, params, returnType, body⟩

/-- Parameters, return type and body of a declared function or a method. -/
def named : Nat → String → Parser Function
  | 0, _ => throw .noToken
  | n + 1, name => do
    let params ← parameters n
    let returnType ← optionalType
    let body ← braced n name
    return ⟨some name, params, returnType, body⟩

/-- Statements between braces. `owner` names in messages what they are the body of. -/
def braced : Nat → String → Parser (List Stmt)
  | 0, _ => throw .noToken
  | n + 1, owner => do
    let _ ← expect .openBrace (fun _ => .missingOpenBrace owner)
    statements n

/-- The statements up to the closing brace, which is taken too. -/
def statements : Nat → Parser (List Stmt)
  | 0 => throw .noToken
  | n + 1 => do
    match (← peek).kind with
    | .closeBrace =>
      skip
      return []
    | .endOfFile => throw .unclosedBlock
    | _ =>
      let s ← statement n
      return s :: (← statements n)

/-- A statement, told by its first token. -/
def statement : Nat → Parser Stmt
  | 0 => throw .noToken
  | n + 1 => do
    match (← peek).kind with
    | .funcWord =>
      skip
      let name ← expect .identifier (fun _ => .missingFunctionName)
      return .function (← named n name.value)
    | .classWord =>
      skip
      let name ← expect .identifier (fun _ => .missingClassName)
      let _ ← expect .openBrace (fun _ => .missingOpenBrace ("class " ++ name.value))
      return .classDecl name.value (← methods n)
    | .returnWord =>
      skip
      let t ← peek
      if t.kind = .closeBrace ∨ t.kind = .endOfFile then
        return .ret none
      else
        return .ret (some (← expression n))
    | .ifWord =>
      skip
      conditional n
    | .whileWord =>
      skip
      let test ← expression n
      let body ← braced n "while"
      return .whileLoop test (.block body)
    | .openBrace => return .block (← braced n "block")
    | _ => simple n

/-- What follows the word `if`: a test, a block, and what to do otherwise. -/
def conditional : Nat → Parser Stmt
  | 0 => throw .noToken
  | n + 1 => do
    let test ← expression n
    let thenBody ← braced n "if"
    if ← accept .elseWord then
      if ← accept .ifWord then
        return .ifElse test (.block thenBody) (some (← conditional n))
      else
        return .ifElse test (.block thenBody) (some (.block (← braced n "else")))
    else
      return .ifElse test (.block thenBody) none

/-- The methods of a class up to the closing brace, which is taken too. The word `func` may stand before
    any of them, any number of times. -/
def methods : Nat → Parser (List Function)
  | 0 => throw .noToken
  | n + 1 => do
    let t ← peek
    match t.kind with
    | .closeBrace =>
      skip
      return []
    | .funcWord =>
      skip
      methods n
    | .identifier =>
      skip
      let f ← named n t.value
      return f :: (← methods n)
    | .endOfFile => throw .unclosedBlock
    | _ => throw (.expectedMethod t.value)

/-- A statement that begins with an expression: a declaration, an assignment, an update, or the
    expression alone. The target of a declaration is checked before its value is read, that of an
    assignment after it. -/
def simple : Nat → Parser Stmt
  | 0 => throw .noToken
  | n + 1 => do
    let left ← expression n
    match (← peek).kind with
    | .declare =>
      skip
      match left with
      | .var name _ => return .declare name (← expression n)
      | _ => throw .invalidDeclarationTarget
    | .equals =>
      skip
      let value ← expression n
      match left with
      | .var name id => return .assign ⟨name, id⟩ value
      | .member object property => return .setMember object property value
      | _ => throw .invalidAssignmentTarget
    | .increment =>
      skip
      updateOf left .increment
    | .decrement =>
      skip
      updateOf left .decrement
    | _ => return .expr left

end

/-- The statements up to the end of the source, each with the line of its first token. A failure is
    placed on the line where its top-level statement starts. -/
def program : Nat → EStateM (Located ParseError) Cursor Program
  | 0 => throw ⟨0, .noToken⟩
  | n + 1 => do
    let t := front (← get).tokens
    if t.kind = .endOfFile then return []
    let s ← EStateM.adaptExcept (Located.mk t.line) (statement n)
    return ⟨t.line, s⟩ :: (← program n)

/-- The next token is all that is looked at before a statement. -/
theorem program_succ (n : Nat) : program (n + 1) =
    ((fun c => .ok (front c.tokens) c : EStateM (Located ParseError) Cursor Token) >>= fun t => do
      if t.kind = .endOfFile then return []
      let s ← EStateM.adaptExcept (Located.mk t.line) (statement n)
      return ⟨t.line, s⟩ :: (← program n)) := rfl

/-- A depth that no parse of these tokens can use up: between two tokens at most a dozen rules open
    inside each other. -/
def depthFor (tokens : List Token) : Nat := 16 * (tokens.length + 1)

end Grammar

/-- The outcome of a parse, and how many ids have been drawn by its end. -/
structure Parse where
  result : Except (Located ParseError) Program
  drawn : Nat

/-- Parses a list of tokens when `drawn` ids have been drawn before. A token for the end of the source
    ends the program even when others follow; without one, the list's end does. -/
def parse (tokens : List Token) (drawn : Nat) : Parse :=
  match Grammar.program (Grammar.depthFor tokens) ⟨tokens, drawn⟩ with
  | .ok program c => ⟨.ok program, c.drawn⟩
  | .error e c => ⟨.error e, c.drawn⟩

end Kiln
