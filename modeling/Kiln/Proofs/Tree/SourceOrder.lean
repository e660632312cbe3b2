/-
Module: Kiln.Proofs.Tree.SourceOrder
Purpose: The ids of a program in the order of its source. Variables, `this`, and the targets of assignments
  and updates carry one each; the name of a declaration has none. The scope analysis comes to the target
  of an assignment after its value, so that it meets the same ids in another order.
Main exports: Expr.sourceIds, Stmt.sourceIds, Function.sourceIds, Program.sourceIds, Program.sourceIds_perm
-/
import Kiln.Proofs.Scoping.Walk

namespace Kiln

mutual

/-- The ids in an expression, from left to right. -/
def Expr.sourceIds : Expr → List NodeId
  | .number _ | .text _ | .bool _ => []
  | .var _ id | .this id => [id]
  | .binary _ left right | .logical _ left right => left.sourceIds ++ right.sourceIds
  | .unary _ operand => operand.sourceIds
  | .member object _ => object.sourceIds
  | .call callee args => callee.sourceIds ++ Expr.sourceIdsOfAll args
  | .lambda f => f.sourceIds

/-- The ids in several expressions, from left to right. -/
def Expr.sourceIdsOfAll : List Expr → List NodeId
  | [] => []
  | e :: rest => e.sourceIds ++ Expr.sourceIdsOfAll rest

/-- The ids in a statement, from left to right: that of a target stands before those of its value. -/
def Stmt.sourceIds : Stmt → List NodeId
  | .expr e => e.sourceIds
  | .declare _ value => value.sourceIds
  | .assign target value => target.id :: value.sourceIds
  | .update target _ => [target.id]
  | .setMember object _ value => object.sourceIds ++ value.sourceIds
  | .block body => Stmt.sourceIdsOfAll body
  | .ifElse test thenBranch none => test.sourceIds ++ thenBranch.sourceIds
  | .ifElse test thenBranch (some elseBranch) =>
    test.sourceIds ++ (thenBranch.sourceIds ++ elseBranch.sourceIds)
  | .whileLoop test body => test.sourceIds ++ body.sourceIds
  | .function f => f.sourceIds
  | .ret none => []
  | .ret (some value) => value.sourceIds
  | .classDecl _ methods => Function.sourceIdsOfAll methods

/-- The ids in several statements, in order. -/
def Stmt.sourceIdsOfAll : List Stmt → List NodeId
  | [] => []
  | s :: rest => s.sourceIds ++ Stmt.sourceIdsOfAll rest

/-- The ids in the body of a function. -/
def Function.sourceIds : Function → List NodeId
  | ⟨_, _, _, body⟩ => Stmt.sourceIdsOfAll body

/-- The ids in the bodies of several functions, in order. -/
def Function.sourceIdsOfAll : List Function → List NodeId
  | [] => []
  | f :: rest => f.sourceIds ++ Function.sourceIdsOfAll rest

end

/-- The ids of a program in the order of its source. -/
def Program.sourceIds : Program → List NodeId
  | [] => []
  | node :: rest => node.value.sourceIds ++ Program.sourceIds rest

/-! ### The analysis meets the same ids -/

namespace Step

@[simp]
theorem idsOfAll_nil : idsOfAll [] = [] := rfl

@[simp]
theorem idsOfAll_declare_cons (name : String) (rest : List Step) :
    idsOfAll (.declare name :: rest) = idsOfAll rest := rfl

@[simp]
theorem idsOfAll_define_cons (name : String) (rest : List Step) :
    idsOfAll (.define name :: rest) = idsOfAll rest := rfl

@[simp]
theorem idsOfAll_refuse_cons (name : String) (rest : List Step) :
    idsOfAll (.refuse name :: rest) = idsOfAll rest := rfl

@[simp]
theorem idsOfAll_exit_cons (rest : List Step) : idsOfAll (.exit :: rest) = idsOfAll rest := rfl

@[simp]
theorem idsOfAll_locate_cons (name : String) (id : NodeId) (rest : List Step) :
    idsOfAll (.locate name id :: rest) = id :: idsOfAll rest := rfl

@[simp]
theorem idsOfAll_within_cons (region : Region) (body rest : List Step) :
    idsOfAll (.within region body :: rest) = idsOfAll body ++ idsOfAll rest := by
  rw [idsOfAll_cons, ids_within]

@[simp]
theorem idsOfAll_params (ps : List Param) : idsOfAll (Param.steps ps) = [] := by
  induction ps with
  | nil => rfl
  | cons p rest ih => simp [Param.steps, ih]

end Step

open Step

mutual

/-- The analysis of an expression meets all its ids. -/
theorem Expr.sourceIds_perm : ∀ e : Expr, e.sourceIds.Perm (idsOfAll e.steps)
  | .number _ | .text _ | .bool _ => by simp [Expr.sourceIds, Expr.steps]
  | .var _ _ | .this _ => by simp [Expr.sourceIds, Expr.steps]
  | .binary _ left right | .logical _ left right => by
      rw [Expr.sourceIds, Expr.steps, idsOfAll_append]
      exact left.sourceIds_perm.append right.sourceIds_perm
  | .unary _ operand => by
      rw [Expr.sourceIds, Expr.steps]
      exact operand.sourceIds_perm
  | .member object _ => by
      rw [Expr.sourceIds, Expr.steps]
      exact object.sourceIds_perm
  | .call callee args => by
      rw [Expr.sourceIds, Expr.steps, idsOfAll_append]
      exact callee.sourceIds_perm.append (Expr.sourceIdsOfAll_perm args)
  | .lambda f => by
      rw [Expr.sourceIds, Expr.steps]
      exact f.sourceIds_perm

/-- The analysis of several expressions meets all their ids. -/
theorem Expr.sourceIdsOfAll_perm :
    ∀ es : List Expr, (Expr.sourceIdsOfAll es).Perm (idsOfAll (Expr.stepsOfAll es))
  | [] => .refl _
  | e :: rest => by
      rw [Expr.sourceIdsOfAll, Expr.stepsOfAll, idsOfAll_append]
      exact e.sourceIds_perm.append (Expr.sourceIdsOfAll_perm rest)

/-- The analysis of a statement meets all its ids, but that of an assigned variable after those of the
    value. -/
theorem Stmt.sourceIds_perm : ∀ s : Stmt, s.sourceIds.Perm (idsOfAll s.steps)
  | .expr e => by
      rw [Stmt.sourceIds, Stmt.steps]
      exact e.sourceIds_perm
  | .declare _ value => by
      simpa [Stmt.sourceIds, Stmt.steps, idsOfAll_append] using value.sourceIds_perm
  | .assign target value => by
      simp only [Stmt.sourceIds, Stmt.steps, idsOfAll_append, idsOfAll_locate_cons, idsOfAll_nil]
      exact (value.sourceIds_perm.cons target.id).trans (List.perm_append_singleton _ _).symm
  | .update _ _ => by simp [Stmt.sourceIds, Stmt.steps]
  | .setMember object _ value => by
      rw [Stmt.sourceIds, Stmt.steps, idsOfAll_append]
      exact object.sourceIds_perm.append value.sourceIds_perm
  | .block body => by simpa [Stmt.sourceIds, Stmt.steps] using Stmt.sourceIdsOfAll_perm body
  | .ifElse test thenBranch none => by
      rw [Stmt.sourceIds, Stmt.steps, idsOfAll_append]
      exact test.sourceIds_perm.append thenBranch.sourceIds_perm
  | .ifElse test thenBranch (some elseBranch) => by
      rw [Stmt.sourceIds, Stmt.steps, idsOfAll_append, idsOfAll_append]
      exact test.sourceIds_perm.append (thenBranch.sourceIds_perm.append elseBranch.sourceIds_perm)
  | .whileLoop test body => by
      rw [Stmt.sourceIds, Stmt.steps, idsOfAll_append]
      exact test.sourceIds_perm.append body.sourceIds_perm
  | .function f => by simpa [Stmt.sourceIds, Stmt.steps] using f.sourceIds_perm
  | .ret none => by simp [Stmt.sourceIds, Stmt.steps]
  | .ret (some value) => by simpa [Stmt.sourceIds, Stmt.steps] using value.sourceIds_perm
  | .classDecl _ methods => by
      simpa [Stmt.sourceIds, Stmt.steps] using Function.sourceIdsOfAll_perm methods

/-- The analysis of several statements meets all their ids. -/
theorem Stmt.sourceIdsOfAll_perm :
    ∀ ss : List Stmt, (Stmt.sourceIdsOfAll ss).Perm (idsOfAll (Stmt.stepsOfAll ss))
  | [] => .refl _
  | s :: rest => by
      rw [Stmt.sourceIdsOfAll, Stmt.stepsOfAll, idsOfAll_append]
      exact s.sourceIds_perm.append (Stmt.sourceIdsOfAll_perm rest)

/-- The analysis of a function meets all its ids. -/
theorem Function.sourceIds_perm {kind : FunctionKind} :
    ∀ f : Function, f.sourceIds.Perm (idsOfAll (f.steps kind))
  | ⟨_, ps, _, body⟩ => by
      simpa [Function.sourceIds, Function.steps, idsOfAll_append] using Stmt.sourceIdsOfAll_perm body

/-- The analysis of several functions meets all their ids. -/
theorem Function.sourceIdsOfAll_perm :
    ∀ fs : List Function, (Function.sourceIdsOfAll fs).Perm (idsOfAll (Function.stepsOfAll fs))
  | [] => .refl _
  | f :: rest => by
      rw [Function.sourceIdsOfAll, Function.stepsOfAll, idsOfAll_append]
      exact f.sourceIds_perm.append (Function.sourceIdsOfAll_perm rest)

end

/-- The analysis of a program meets all its ids. -/
theorem Program.sourceIds_perm (p : Program) : p.sourceIds.Perm (idsOfAll p.steps) := by
  induction p with
  | nil => exact .refl _
  | cons node rest ih =>
      rw [Program.sourceIds, Program.steps, idsOfAll_append]
      exact node.value.sourceIds_perm.append ih

end Kiln
