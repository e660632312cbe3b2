/-
Module: Kiln.Proofs.Renaming.Tree
Purpose: Renaming the variables of one scope of a program. The scope is that of a block or a function, and
  a path of child numbers leads to it. Renamed are the declarations and parameters of the scope, and of all
  references those that the scope analysis has bound to it. Functions, classes, types and properties keep
  their names.
Main exports: Site, Site.distance, Site.child, Site.enter, Expr.rename, Stmt.rename, Function.rename,
  Program.renameVariable, Stmt.rename_congr, Program.rename_congr
-/
import Kiln.Proofs.Tree.Names
import Kiln.Scoping.Annotations

namespace Kiln

/-! ### Sites -/

/-- Where a part of a program lies, as seen from the scope whose variables are renamed. -/
inductive Site where
  /-- The scope lies inside the part, at the end of the path. -/
  | outside (path : List Nat)
  /-- The scope lies in another part of the program. -/
  | elsewhere
  /-- The part lies inside the scope, with so many scopes between them. -/
  | inside (depth : Nat)
deriving DecidableEq, Repr, Inhabited

namespace Site

/-- How many scopes out from a part the scope lies, if it lies around the part. -/
def distance : Site → Option Nat
  | .inside depth => some depth
  | _ => none

/-- The site of a child. -/
def child (number : Nat) : Site → Site
  | .outside [] => .elsewhere
  | .outside (first :: path) => if number = first then .outside path else .elsewhere
  | site => site

/-- The site of the inside of a block or a function that declares these functions and classes. At the end
    of the path this is the scope itself, unless the names to change are theirs and not those of
    variables. -/
def enter (ρ : String → String) (functions : List String) : Site → Site
  | .outside [] => if functions.all (fun f => ρ f == f) then .inside 0 else .elsewhere
  | .inside depth => .inside (depth + 1)
  | site => site

/-- The site of the methods of a class. Their scope has no variables of its own but `this`. -/
def enterClass : Site → Site
  | .inside depth => .inside (depth + 1)
  | site => site

/-- At the end of the path the renaming begins, if functions and classes keep their names. -/
theorem enter_end {ρ : String → String} {functions : List String} (h : ∀ f ∈ functions, ρ f = f) :
    enter ρ functions (.outside []) = .inside 0 := by
  rw [enter, if_pos]
  rw [List.all_eq_true]
  intro f hf
  exact beq_iff_eq.2 (h f hf)

@[simp]
theorem distance_child (number : Nat) (site : Site) :
    (site.child number).distance = site.distance := by
  unfold child
  split
  · rfl
  · split <;> rfl
  · rfl

end Site

/-! ### Renaming -/

/-- The name under which a scope has a variable, when the scope of the renaming lies at the distance `d`
    from it. -/
def nameAt (ρ : String → String) (d : Option Nat) (name : String) : String :=
  if d = some 0 then ρ name else name

/-- The name by which a reference with the distance `bound` is written, when the scope of the renaming lies
    at the distance `d` from it. -/
def referAt (ρ : String → String) (d bound : Option Nat) (name : String) : String :=
  if d.isSome ∧ bound = d then ρ name else name

section Rename

variable (ρ : String → String) (a : Annotations)

/-- A parameter of a function whose scope lies at the distance `d` inside the scope of the renaming. -/
def Param.rename (d : Option Nat) (p : Param) : Param := { p with name := nameAt ρ d p.name }

/-- A variable that is written to at a site. -/
def Variable.rename (site : Site) (v : Variable) : Variable :=
  { v with name := referAt ρ site.distance (a.get? v.id) v.name }

mutual

/-- Renaming in an expression that lies at a site. -/
def Expr.rename (site : Site) : Expr → Expr
  | .number value => .number value
  | .text value => .text value
  | .bool value => .bool value
  | .var name id => .var (referAt ρ site.distance (a.get? id) name) id
  | .this id => .this id
  | .binary op left right => .binary op (left.rename (site.child 0)) (right.rename (site.child 1))
  | .logical op left right => .logical op (left.rename (site.child 0)) (right.rename (site.child 1))
  | .unary op operand => .unary op (operand.rename (site.child 0))
  | .member object property => .member (object.rename (site.child 0)) property
  | .call callee args => .call (callee.rename (site.child 0)) (Expr.renameAll (site.child 1) args)
  | .lambda f => .lambda (f.rename site)

/-- Renaming in expressions. The first one is a child, and the others together are another. -/
def Expr.renameAll (site : Site) : List Expr → List Expr
  | [] => []
  | e :: rest => e.rename (site.child 0) :: Expr.renameAll (site.child 1) rest

/-- Renaming in a statement that lies at a site. -/
def Stmt.rename (site : Site) : Stmt → Stmt
  | .expr e => .expr (e.rename (site.child 0))
  | .declare name value => .declare (nameAt ρ site.distance name) (value.rename (site.child 0))
  | .assign target value => .assign (target.rename ρ a site) (value.rename (site.child 0))
  | .update target op => .update (target.rename ρ a site) op
  | .setMember object property value =>
    .setMember (object.rename (site.child 0)) property (value.rename (site.child 1))
  | .block body => .block (Stmt.renameAll (site.enter ρ (Stmt.functionNamesOfAll body)) body)
  | .ifElse test thenBranch none =>
    .ifElse (test.rename (site.child 0)) (thenBranch.rename (site.child 1)) none
  | .ifElse test thenBranch (some elseBranch) =>
    .ifElse (test.rename (site.child 0)) (thenBranch.rename (site.child 1))
      (some (elseBranch.rename (site.child 2)))
  | .whileLoop test body => .whileLoop (test.rename (site.child 0)) (body.rename (site.child 1))
  | .function f => .function (f.rename site)
  | .ret none => .ret none
  | .ret (some value) => .ret (some (value.rename (site.child 0)))
  | .classDecl name methods => .classDecl name (Function.renameAll site.enterClass methods)

/-- Renaming in statements. The first one is a child, and the others together are another. -/
def Stmt.renameAll (site : Site) : List Stmt → List Stmt
  | [] => []
  | s :: rest => s.rename (site.child 0) :: Stmt.renameAll (site.child 1) rest

/-- Renaming in a function that lies at a site. Its parameters and its body share one scope. -/
def Function.rename (site : Site) : Function → Function
  | ⟨name, params, returnType, body⟩ =>
    let inner := site.enter ρ (Stmt.functionNamesOfAll body)
    ⟨name, params.map (Param.rename ρ inner.distance), returnType, Stmt.renameAll inner body⟩

/-- Renaming in functions. The first one is a child, and the others together are another. -/
def Function.renameAll (site : Site) : List Function → List Function
  | [] => []
  | f :: rest => f.rename (site.child 0) :: Function.renameAll (site.child 1) rest

end

/-- Renaming in a program. The first statement is a child, and the others together are another. -/
def Program.rename (site : Site) : Program → Program
  | [] => []
  | node :: rest =>
    ⟨node.line, node.value.rename ρ a (site.child 0)⟩ :: Program.rename (site.child 1) rest

end Rename

/-! ### Functions -/

section Functions

variable (ρ : String → String) (a : Annotations) (site : Site) (f : Function)

/-- The site of the inside of a function. -/
def Function.inner (ρ : String → String) (site : Site) (f : Function) : Site :=
  site.enter ρ (Stmt.functionNamesOfAll f.body)

@[simp]
theorem Function.displayName_rename : (f.rename ρ a site).displayName = f.displayName := by
  cases f
  rfl

@[simp]
theorem Function.body_rename :
    (f.rename ρ a site).body = Stmt.renameAll ρ a (f.inner ρ site) f.body := by
  cases f
  rfl

@[simp]
theorem Function.params_rename :
    (f.rename ρ a site).params = f.params.map (Param.rename ρ (f.inner ρ site).distance) := by
  cases f
  rfl

@[simp]
theorem Function.paramNames_rename : (f.rename ρ a site).paramNames
    = f.paramNames.map (nameAt ρ (f.inner ρ site).distance) := by
  simp [Function.paramNames, Param.rename]

end Functions

/-! ### Renaming depends on the names of a program only -/

section Congr

variable {ρ σ : String → String} {a : Annotations}

theorem nameAt_congr {name : String} (h : ρ name = σ name) (d : Option Nat) :
    nameAt ρ d name = nameAt σ d name := by
  rw [nameAt, nameAt, h]

theorem referAt_congr {name : String} (h : ρ name = σ name) (d bound : Option Nat) :
    referAt ρ d bound name = referAt σ d bound name := by
  rw [referAt, referAt, h]

theorem Site.enter_congr {functions : List String} (h : ∀ f ∈ functions, ρ f = σ f)
    (site : Site) : site.enter ρ functions = site.enter σ functions := by
  have hall : functions.all (fun f => ρ f == f) = functions.all (fun f => σ f == f) := by
    rw [Bool.eq_iff_iff, List.all_eq_true, List.all_eq_true]
    exact forall₂_congr fun f hf => by rw [h f hf]
  unfold Site.enter
  rw [hall]

theorem Param.rename_congr {ps : List Param} (h : ∀ name ∈ ps.flatMap Param.names, ρ name = σ name)
    (d : Option Nat) : ps.map (Param.rename ρ d) = ps.map (Param.rename σ d) := by
  apply List.map_congr_left
  intro p hp
  have hname : p.name ∈ ps.flatMap Param.names := List.mem_flatMap.2 ⟨p, hp, List.mem_cons_self⟩
  rw [Param.rename, Param.rename, nameAt_congr (h p.name hname)]

/-- The names of the functions in a scope are among the names of the program. -/
theorem Stmt.enter_congr {body : List Stmt} (h : ∀ name ∈ Stmt.namesOfAll body, ρ name = σ name)
    (unnamed : ρ "anonymous" = σ "anonymous") (site : Site) :
    site.enter ρ (Stmt.functionNamesOfAll body) = site.enter σ (Stmt.functionNamesOfAll body) := by
  apply Site.enter_congr
  intro f hf
  rcases Stmt.mem_namesOfAll_of_mem_functionNamesOfAll hf with hname | hname
  · exact h f hname
  · rw [hname, unnamed]

mutual

theorem Expr.rename_congr (unnamed : ρ "anonymous" = σ "anonymous") :
    ∀ (e : Expr), (∀ name ∈ e.names, ρ name = σ name) → ∀ site : Site,
      e.rename ρ a site = e.rename σ a site
  | .number _, _, _ => rfl
  | .text _, _, _ => rfl
  | .bool _, _, _ => rfl
  | .this _, _, _ => rfl
  | .var name id, h, site => by
      rw [Expr.rename, Expr.rename, referAt_congr (h name List.mem_cons_self)]
  | .binary op left right, h, site => by
      simp only [Expr.names, List.forall_mem_append] at h
      rw [Expr.rename, Expr.rename, left.rename_congr unnamed h.1, right.rename_congr unnamed h.2]
  | .logical op left right, h, site => by
      simp only [Expr.names, List.forall_mem_append] at h
      rw [Expr.rename, Expr.rename, left.rename_congr unnamed h.1, right.rename_congr unnamed h.2]
  | .unary op operand, h, site => by
      rw [Expr.rename, Expr.rename, operand.rename_congr unnamed h]
  | .member object property, h, site => by
      simp only [Expr.names, List.forall_mem_append] at h
      rw [Expr.rename, Expr.rename, object.rename_congr unnamed h.1]
  | .call callee args, h, site => by
      simp only [Expr.names, List.forall_mem_append] at h
      rw [Expr.rename, Expr.rename, callee.rename_congr unnamed h.1,
        Expr.renameAll_congr unnamed args h.2]
  | .lambda f, h, site => by
      rw [Expr.rename, Expr.rename, f.rename_congr unnamed h]

theorem Expr.renameAll_congr (unnamed : ρ "anonymous" = σ "anonymous") :
    ∀ (es : List Expr), (∀ name ∈ Expr.namesOfAll es, ρ name = σ name) → ∀ site : Site,
      Expr.renameAll ρ a site es = Expr.renameAll σ a site es
  | [], _, _ => rfl
  | e :: rest, h, site => by
      simp only [Expr.namesOfAll, List.forall_mem_append] at h
      rw [Expr.renameAll, Expr.renameAll, e.rename_congr unnamed h.1,
        Expr.renameAll_congr unnamed rest h.2]

theorem Stmt.rename_congr (unnamed : ρ "anonymous" = σ "anonymous") :
    ∀ (s : Stmt), (∀ name ∈ s.names, ρ name = σ name) → ∀ site : Site,
      s.rename ρ a site = s.rename σ a site
  | .expr e, h, site => by
      rw [Stmt.rename, Stmt.rename, e.rename_congr unnamed h]
  | .declare name value, h, site => by
      simp only [Stmt.names, List.forall_mem_cons] at h
      rw [Stmt.rename, Stmt.rename, nameAt_congr h.1, value.rename_congr unnamed h.2]
  | .assign target value, h, site => by
      simp only [Stmt.names, List.forall_mem_cons] at h
      rw [Stmt.rename, Stmt.rename, Variable.rename, Variable.rename, referAt_congr h.1,
        value.rename_congr unnamed h.2]
  | .update target op, h, site => by
      rw [Stmt.rename, Stmt.rename, Variable.rename, Variable.rename,
        referAt_congr (h target.name List.mem_cons_self)]
  | .setMember object property value, h, site => by
      simp only [Stmt.names, List.forall_mem_append, List.forall_mem_cons] at h
      rw [Stmt.rename, Stmt.rename, object.rename_congr unnamed h.1, value.rename_congr unnamed h.2.2]
  | .block body, h, site => by
      rw [Stmt.rename, Stmt.rename, Stmt.enter_congr h unnamed, Stmt.renameAll_congr unnamed body h]
  | .ifElse test thenBranch none, h, site => by
      simp only [Stmt.names, List.forall_mem_append] at h
      rw [Stmt.rename, Stmt.rename, test.rename_congr unnamed h.1, thenBranch.rename_congr unnamed h.2]
  | .ifElse test thenBranch (some elseBranch), h, site => by
      simp only [Stmt.names, List.forall_mem_append] at h
      rw [Stmt.rename, Stmt.rename, test.rename_congr unnamed h.1.1,
        thenBranch.rename_congr unnamed h.1.2, elseBranch.rename_congr unnamed h.2]
  | .whileLoop test body, h, site => by
      simp only [Stmt.names, List.forall_mem_append] at h
      rw [Stmt.rename, Stmt.rename, test.rename_congr unnamed h.1, body.rename_congr unnamed h.2]
  | .function f, h, site => by
      rw [Stmt.rename, Stmt.rename, f.rename_congr unnamed h]
  | .ret none, _, _ => rfl
  | .ret (some value), h, site => by
      rw [Stmt.rename, Stmt.rename, value.rename_congr unnamed h]
  | .classDecl name methods, h, site => by
      simp only [Stmt.names, List.forall_mem_cons] at h
      rw [Stmt.rename, Stmt.rename, Function.renameAll_congr unnamed methods h.2]

theorem Stmt.renameAll_congr (unnamed : ρ "anonymous" = σ "anonymous") :
    ∀ (ss : List Stmt), (∀ name ∈ Stmt.namesOfAll ss, ρ name = σ name) → ∀ site : Site,
      Stmt.renameAll ρ a site ss = Stmt.renameAll σ a site ss
  | [], _, _ => rfl
  | s :: rest, h, site => by
      simp only [Stmt.namesOfAll, List.forall_mem_append] at h
      rw [Stmt.renameAll, Stmt.renameAll, s.rename_congr unnamed h.1,
        Stmt.renameAll_congr unnamed rest h.2]

theorem Function.rename_congr (unnamed : ρ "anonymous" = σ "anonymous") :
    ∀ (f : Function), (∀ name ∈ f.names, ρ name = σ name) → ∀ site : Site,
      f.rename ρ a site = f.rename σ a site
  | ⟨name, params, returnType, body⟩, h, site => by
      simp only [Function.names, List.forall_mem_append] at h
      simp only [Function.rename]
      rw [Stmt.enter_congr h.2 unnamed, Param.rename_congr h.1.1.2, Stmt.renameAll_congr unnamed body h.2]

theorem Function.renameAll_congr (unnamed : ρ "anonymous" = σ "anonymous") :
    ∀ (fs : List Function), (∀ name ∈ Function.namesOfAll fs, ρ name = σ name) → ∀ site : Site,
      Function.renameAll ρ a site fs = Function.renameAll σ a site fs
  | [], _, _ => rfl
  | f :: rest, h, site => by
      simp only [Function.namesOfAll, List.forall_mem_append] at h
      rw [Function.renameAll, Function.renameAll, f.rename_congr unnamed h.1,
        Function.renameAll_congr unnamed rest h.2]

end

/-- Two changes of names that agree on the names of a program, and on the name under which unnamed functions
    are declared, rename it alike. -/
theorem Program.rename_congr (unnamed : ρ "anonymous" = σ "anonymous") {p : Program}
    (h : ∀ name ∈ Program.names p, ρ name = σ name) (site : Site) :
    Program.rename ρ a site p = Program.rename σ a site p := by
  induction p generalizing site with
  | nil => rfl
  | cons node rest ih =>
      simp only [Program.names, Program.statements, List.map_cons, Stmt.namesOfAll,
        List.forall_mem_append] at h
      rw [Program.rename, Program.rename, node.value.rename_congr unnamed h.1, ih h.2]

end Congr

/-- The program with the variable `x` of the scope at the end of the path renamed to `y`, where `a` are the
    distances of its references. -/
def Program.renameVariable (p : Program) (a : Annotations) (path : List Nat) (x y : String) : Program :=
  p.rename (fun name => if name = x then y else name) a (.outside path)

end Kiln
