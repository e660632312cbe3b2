/-
Module: Kiln.Proofs.Tree.Names
Purpose: The names that are written in a program: those of variables, parameters, types, properties,
  functions and classes. The names of functions and classes that belong to one scope are told apart from
  the rest.
Main exports: Expr.names, Stmt.names, Stmt.namesOfAll, Function.names, Program.statements, Program.names,
  Stmt.functionNames
-/
import Kiln.Tree.Basic

namespace Kiln

/-- The names that a parameter writes. -/
def Param.names (p : Param) : List String := p.name :: p.type.toList

mutual

/-- The names that are written in an expression. -/
def Expr.names : Expr → List String
  | .var name _ => [name]
  | .binary _ left right | .logical _ left right => left.names ++ right.names
  | .unary _ operand => operand.names
  | .member object property => object.names ++ [property]
  | .call callee args => callee.names ++ Expr.namesOfAll args
  | .lambda f => f.names
  | _ => []

/-- The names that are written in expressions. -/
def Expr.namesOfAll : List Expr → List String
  | [] => []
  | e :: rest => e.names ++ Expr.namesOfAll rest

/-- The names that are written in a statement: those of variables, parameters, types, properties, functions
    and classes. -/
def Stmt.names : Stmt → List String
  | .expr e => e.names
  | .declare name value => name :: value.names
  | .assign target value => target.name :: value.names
  | .update target _ => [target.name]
  | .setMember object property value => object.names ++ property :: value.names
  | .block body => Stmt.namesOfAll body
  | .ifElse test thenBranch none => test.names ++ thenBranch.names
  | .ifElse test thenBranch (some elseBranch) => test.names ++ thenBranch.names ++ elseBranch.names
  | .whileLoop test body => test.names ++ body.names
  | .function f => f.names
  | .ret none => []
  | .ret (some value) => value.names
  | .classDecl name methods => name :: Function.namesOfAll methods

/-- The names that are written in statements. -/
def Stmt.namesOfAll : List Stmt → List String
  | [] => []
  | s :: rest => s.names ++ Stmt.namesOfAll rest

/-- The names that are written in a function. -/
def Function.names : Function → List String
  | ⟨name, params, returnType, body⟩ =>
    name.toList ++ params.flatMap Param.names ++ returnType.toList ++ Stmt.namesOfAll body

/-- The names that are written in functions. -/
def Function.namesOfAll : List Function → List String
  | [] => []
  | f :: rest => f.names ++ Function.namesOfAll rest

end

/-- The top-level statements of a program, without their lines. -/
def Program.statements (p : Program) : List Stmt := p.map (·.value)

/-- The names that are written in a program. -/
def Program.names (p : Program) : List String := Stmt.namesOfAll p.statements

theorem Program.names_cons (node : Located Stmt) (rest : Program) :
    Program.names (node :: rest) = node.value.names ++ Program.names rest := by
  rw [Program.names, Program.statements, List.map_cons, Stmt.namesOfAll]
  rfl

theorem Function.mem_namesOfAll {x : String} {f : Function} {functions : List Function}
    (hf : f ∈ functions) (hx : x ∈ f.names) : x ∈ Function.namesOfAll functions := by
  induction functions with
  | nil => cases hf
  | cons g rest ih =>
      rw [Function.namesOfAll, List.mem_append]
      rcases List.mem_cons.1 hf with rfl | hf
      · exact .inl hx
      · exact .inr (ih hf)

/-! ### Functions and classes -/

/-- The names of the functions and classes that a statement declares in the scope around it. -/
def Stmt.functionNames : Stmt → List String
  | .function f => [f.displayName]
  | .classDecl name _ => [name]
  | .ifElse _ thenBranch none => thenBranch.functionNames
  | .ifElse _ thenBranch (some elseBranch) => thenBranch.functionNames ++ elseBranch.functionNames
  | .whileLoop _ body => body.functionNames
  | _ => []

/-- The names of the functions and classes that statements declare in the scope around them. -/
def Stmt.functionNamesOfAll (ss : List Stmt) : List String := ss.flatMap Stmt.functionNames

/-- A function is declared under its name, if it has one. -/
theorem Function.displayName_mem (f : Function) :
    f.displayName ∈ f.names ∨ f.displayName = "anonymous" := by
  obtain ⟨name, params, returnType, body⟩ := f
  cases name with
  | none => exact .inr rfl
  | some name =>
      apply Or.inl
      simp [Function.names, Function.displayName]

/-- The names of declared functions and classes are written in the statement. -/
theorem Stmt.mem_names_of_mem_functionNames {x : String} :
    ∀ {s : Stmt}, x ∈ s.functionNames → x ∈ s.names ∨ x = "anonymous"
  | .function f, h => by
      cases List.mem_singleton.1 h
      exact f.displayName_mem
  | .classDecl name methods, h => by
      cases List.mem_singleton.1 h
      exact .inl List.mem_cons_self
  | .ifElse test thenBranch none, h => by
      rw [Stmt.names, List.mem_append]
      exact (Stmt.mem_names_of_mem_functionNames (s := thenBranch) h).imp_left .inr
  | .ifElse test thenBranch (some elseBranch), h => by
      rw [Stmt.names, List.mem_append, List.mem_append]
      rcases List.mem_append.1 h with h | h
      · exact (Stmt.mem_names_of_mem_functionNames h).imp_left (.inl ∘ .inr)
      · exact (Stmt.mem_names_of_mem_functionNames h).imp_left .inr
  | .whileLoop test body, h => by
      rw [Stmt.names, List.mem_append]
      exact (Stmt.mem_names_of_mem_functionNames (s := body) h).imp_left .inr

theorem Stmt.mem_namesOfAll_of_mem_functionNamesOfAll {x : String} {ss : List Stmt}
    (h : x ∈ Stmt.functionNamesOfAll ss) : x ∈ Stmt.namesOfAll ss ∨ x = "anonymous" := by
  induction ss with
  | nil => cases h
  | cons s rest ih =>
      rw [Stmt.namesOfAll, List.mem_append]
      rcases List.mem_append.1 h with h | h
      · exact (Stmt.mem_names_of_mem_functionNames h).imp_left .inl
      · exact (ih h).imp_left .inr

end Kiln
