/-
Module: Kiln.Proofs.Scoping.Discipline
Purpose: Programs in which a variable is always there when it is used. Two habits make for it: branches and
  loop bodies are blocks, so that no declaration is skipped by the statements that come after it in its
  scope; and a variable whose first value refers to the variable itself gets a function as that value,
  which is not called before the variable is there.
Main exports: Stmt.every, Program.every, Stmt.branchesAreBlocks, Stmt.defersSelf, Stmt.careful,
  Program.careful, Stmt.declared_eq_nil
-/
import Kiln.Proofs.Scoping.Regions

namespace Kiln

/-! ### Statements at any depth -/

mutual

/-- All statements inside an expression have a property. -/
def Expr.every (P : Stmt → Bool) : Expr → Bool
  | .number _ | .text _ | .bool _ | .var _ _ | .this _ => true
  | .binary _ left right | .logical _ left right => left.every P && right.every P
  | .unary _ operand => operand.every P
  | .member object _ => object.every P
  | .call callee args => callee.every P && Expr.everyOfAll P args
  | .lambda f => f.every P

/-- All statements inside several expressions have a property. -/
def Expr.everyOfAll (P : Stmt → Bool) : List Expr → Bool
  | [] => true
  | e :: rest => e.every P && Expr.everyOfAll P rest

/-- A statement and all statements inside it have a property. -/
def Stmt.every (P : Stmt → Bool) : Stmt → Bool
  | .expr e => P (.expr e) && e.every P
  | .declare name value => P (.declare name value) && value.every P
  | .assign target value => P (.assign target value) && value.every P
  | .update target op => P (.update target op)
  | .setMember object name value =>
    P (.setMember object name value) && (object.every P && value.every P)
  | .block body => P (.block body) && Stmt.everyOfAll P body
  | .ifElse test thenBranch none =>
    P (.ifElse test thenBranch none) && (test.every P && thenBranch.every P)
  | .ifElse test thenBranch (some elseBranch) =>
    P (.ifElse test thenBranch (some elseBranch)) &&
      (test.every P && (thenBranch.every P && elseBranch.every P))
  | .whileLoop test body => P (.whileLoop test body) && (test.every P && body.every P)
  | .function f => P (.function f) && f.every P
  | .ret none => P (.ret none)
  | .ret (some value) => P (.ret (some value)) && value.every P
  | .classDecl name methods => P (.classDecl name methods) && Function.everyOfAll P methods

/-- Several statements and all statements inside them have a property. -/
def Stmt.everyOfAll (P : Stmt → Bool) : List Stmt → Bool
  | [] => true
  | s :: rest => s.every P && Stmt.everyOfAll P rest

/-- All statements inside a function have a property. -/
def Function.every (P : Stmt → Bool) : Function → Bool
  | ⟨_, _, _, body⟩ => Stmt.everyOfAll P body

/-- All statements inside several functions have a property. -/
def Function.everyOfAll (P : Stmt → Bool) : List Function → Bool
  | [] => true
  | f :: rest => f.every P && Function.everyOfAll P rest

end

/-- All statements of a program, at any depth, have a property. -/
def Program.every (P : Stmt → Bool) (p : Program) : Bool := p.all fun node => node.value.every P

theorem Function.every_eq (P : Stmt → Bool) (f : Function) :
    f.every P = Stmt.everyOfAll P f.body := by
  cases f
  rfl

/-- A statement whose statements all have a property has it itself. -/
theorem Stmt.of_every {P : Stmt → Bool} {s : Stmt} (h : s.every P = true) : P s = true := by
  cases s with
  | update target op => exact h
  | ifElse test thenBranch elseBranch =>
      cases elseBranch <;>
      · simp only [Stmt.every, Bool.and_eq_true] at h
        exact h.1
  | ret value =>
      cases value with
      | none => exact h
      | some value =>
          simp only [Stmt.every, Bool.and_eq_true] at h
          exact h.1
  | _ =>
      simp only [Stmt.every, Bool.and_eq_true] at h
      exact h.1

/-! ### The two habits -/

/-- Whether a statement is a block. -/
def Stmt.isBlock : Stmt → Bool
  | .block _ => true
  | _ => false

/-- Whether a statement can follow an `else`. -/
def Stmt.isAlternative : Stmt → Bool
  | .block _ | .ifElse _ _ _ => true
  | _ => false

/-- The branches and the body of a statement are blocks, but another `if` may follow an `else`. -/
def Stmt.branchesAreBlocks : Stmt → Bool
  | .ifElse _ thenBranch none => thenBranch.isBlock
  | .ifElse _ thenBranch (some elseBranch) => thenBranch.isBlock && elseBranch.isAlternative
  | .whileLoop _ body => body.isBlock
  | _ => true

/-- Whether an expression is an unnamed function. -/
def Expr.isLambda : Expr → Bool
  | .lambda _ => true
  | _ => false

/-- Whether some reference in an expression has the given name and a distance that leads it to the very
    scope in which the expression is evaluated. -/
def Expr.refersHere (a : Annotations) (name : String) (e : Expr) : Bool :=
  (Step.referencesOfAll e.steps).any fun r => r.name == name && a.get? r.id == some r.depth

/-- A declaration whose first value refers to the declared variable has an unnamed function as that
    value. -/
def Stmt.defersSelf (a : Annotations) : Stmt → Bool
  | .declare name value => value.isLambda || !value.refersHere a name
  | _ => true

/-- Both habits at one statement. -/
def Stmt.careful (a : Annotations) (s : Stmt) : Bool := s.branchesAreBlocks && s.defersSelf a

/-- An accepted program with both habits at all its statements. -/
def Program.careful (p : Program) : Bool :=
  match resolve p with
  | .ok a => p.every (Stmt.careful a)
  | .error _ => false

theorem Program.every_of_careful {p : Program} {a : Annotations} (accepted : resolve p = .ok a)
    (h : p.careful = true) : p.every (Stmt.careful a) = true := by
  rwa [Program.careful, accepted] at h

/-- A statement that can follow an `else` declares nothing in the scope around it. -/
theorem Stmt.declared_eq_nil {a : Annotations} : ∀ {s : Stmt}, s.every (Stmt.careful a) = true →
    s.isAlternative = true → s.declared = []
  | .block _, _, _ => rfl
  | .ifElse test thenBranch none, h, _ => by
      have hb := Stmt.of_every h
      simp only [Stmt.careful, Stmt.branchesAreBlocks, Bool.and_eq_true] at hb
      cases thenBranch with
      | block body => rfl
      | _ => cases hb.1
  | .ifElse test thenBranch (some elseBranch), h, _ => by
      have hb := Stmt.of_every h
      simp only [Stmt.careful, Stmt.branchesAreBlocks, Bool.and_eq_true] at hb
      simp only [Stmt.every, Bool.and_eq_true] at h
      have helse : elseBranch.declared = [] := Stmt.declared_eq_nil h.2.2.2 hb.1.2
      cases thenBranch with
      | block body => rw [Stmt.declared, helse]; rfl
      | _ => cases hb.1.1

/-- A loop declares nothing in the scope around it. -/
theorem Stmt.declared_whileLoop_eq_nil {a : Annotations} {test : Expr} {body : Stmt}
    (h : (Stmt.whileLoop test body).every (Stmt.careful a) = true) : body.declared = [] := by
  have hb := Stmt.of_every h
  simp only [Stmt.careful, Stmt.branchesAreBlocks, Bool.and_eq_true] at hb
  cases body with
  | block body => rfl
  | _ => cases hb.1

end Kiln
