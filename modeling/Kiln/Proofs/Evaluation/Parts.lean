/-
Module: Kiln.Proofs.Evaluation.Parts
Purpose: Where a part of a program is placed, its own parts are placed. For most of them nothing has to
  happen in between. The value of a declaration that is a function, the body of a function, the methods of a
  class and the statements after a declaration need the variables that have been declared before
  them.
Main exports: ExprPlaced.binary, StmtPlaced.declare_initial, StmtPlaced.declare_value, StmtPlaced.block,
  StmtPlaced.methods, StmtsPlaced.tail, FunctionPlaced.body
-/
import Kiln.Proofs.Evaluation.Placement

namespace Kiln.Setting

variable {Γ : Setting} {s t : Store} {scope inner : ScopeId}

/-- A reference is placed. -/
abbrev Referred (Γ : Setting) (s : Store) (scope : ScopeId) (name : String) (id : NodeId) : Prop :=
  Γ.Placed s scope [.locate name id] fun _ => True

/-! ### Expressions -/

namespace ExprPlaced

theorem var {name : String} {id : NodeId} (h : Γ.ExprPlaced s scope (.var name id)) :
    Γ.Referred s scope name id := by
  apply Placed.next_of_marked_eq_nil (x := [.refuse name]) h
  · intro _ _
    trivial
  · rfl

theorem this {id : NodeId} (h : Γ.ExprPlaced s scope (.this id)) : Γ.Referred s scope "this" id :=
  Placed.imp h fun _ _ => trivial

theorem binary {op : BinaryOp} {l r : Expr} (h : Γ.ExprPlaced s scope (.binary op l r)) :
    Γ.ExprPlaced s scope l ∧ Γ.ExprPlaced s scope r := by
  apply Placed.halves h
  · intro a ha
    simpa only [Expr.every, Bool.and_eq_true] using ha
  · exact l.marked_steps

theorem logical {op : LogicalOp} {l r : Expr} (h : Γ.ExprPlaced s scope (.logical op l r)) :
    Γ.ExprPlaced s scope l ∧ Γ.ExprPlaced s scope r := by
  apply Placed.halves h
  · intro a ha
    simpa only [Expr.every, Bool.and_eq_true] using ha
  · exact l.marked_steps

theorem unary {op : UnaryOp} {e : Expr} (h : Γ.ExprPlaced s scope (.unary op e)) :
    Γ.ExprPlaced s scope e := h

theorem member {e : Expr} {name : String} (h : Γ.ExprPlaced s scope (.member e name)) :
    Γ.ExprPlaced s scope e := h

theorem call {e : Expr} {args : List Expr} (h : Γ.ExprPlaced s scope (.call e args)) :
    Γ.ExprPlaced s scope e ∧ Γ.ExprsPlaced s scope args := by
  apply Placed.halves h
  · intro a ha
    simpa only [Expr.every, Bool.and_eq_true] using ha
  · exact e.marked_steps

end ExprPlaced

theorem ExprsPlaced.cons {e : Expr} {rest : List Expr} (h : Γ.ExprsPlaced s scope (e :: rest)) :
    Γ.ExprPlaced s scope e ∧ Γ.ExprsPlaced s scope rest := by
  apply Placed.halves h
  · intro a ha
    simpa only [Expr.everyOfAll, Bool.and_eq_true] using ha
  · exact e.marked_steps

/-! ### Statements -/

/-- An expression that can be evaluated. An unnamed function needs nothing for that; what its body needs
    may come later. -/
def ExprFits (Γ : Setting) (s : Store) (scope : ScopeId) : Expr → Prop
  | .lambda _ => True
  | e => Γ.ExprPlaced s scope e

theorem ExprPlaced.fits {e : Expr} (h : Γ.ExprPlaced s scope e) : Γ.ExprFits s scope e := by
  cases e with
  | lambda f => trivial
  | _ => exact h

/-- The names that a scope gets from a statement are there. -/
def Declares (Γ : Setting) (s : Store) (scope : ScopeId) (names : List String) : Prop :=
  Γ.strict → ∀ x ∈ names, s.defines scope x = true

theorem Declares.nil : Γ.Declares s scope [] := by
  intro _ x hx
  cases hx

theorem Declares.singleton {x : String} (h : s.defines scope x = true) : Γ.Declares s scope [x] := by
  intro _ y hy
  rw [List.mem_singleton.1 hy]
  exact h

namespace StmtPlaced

theorem expr {e : Expr} (h : Γ.StmtPlaced s scope (.expr e)) : Γ.ExprPlaced s scope e := by
  apply Placed.imp h
  intro a ha
  simp only [Stmt.every, Bool.and_eq_true] at ha
  exact ha.2

/-- The first value of a variable can be evaluated. If it refers to the variable itself, then it is an unnamed
    function. -/
theorem declare_initial {name : String} {e : Expr} (h : Γ.StmtPlaced s scope (.declare name e)) :
    Γ.ExprFits s scope e := by
  by_cases hlambda : e.isLambda = true
  · cases e with
    | lambda f => trivial
    | _ => cases hlambda
  · have hrest : Γ.Placed s scope (e.steps ++ [.define name])
        fun a => e.every (Stmt.careful a) = true := by
      apply Placed.next (x := [.declare name]) h
      · intro a ha
        simp only [Stmt.every, Bool.and_eq_true] at ha
        exact ha.2
      · intro _ a ha r hr hget hname
        -- the habit says that nothing in `e` refers to the variable
        have hself := Stmt.of_every ha
        simp only [Stmt.careful, Stmt.defersSelf, Bool.and_eq_true, Bool.or_eq_true,
          Bool.not_eq_true'] at hself
        rcases hself.2 with habsurd | hnone
        · exact absurd habsurd hlambda
        · simp only [Expr.refersHere, List.any_eq_false] at hnone
          have hmem : r ∈ Step.referencesOfAll e.steps := by
            simpa [Step.referencesOfAll_append, Step.referencesOfAll, Step.references] using hr
          refine absurd ?_ (hnone r hmem)
          have hsame : r.name = name := by simpa [Step.marks] using hname
          simp [hsame, hget]
    have hplaced : Γ.ExprPlaced s scope e := hrest.first fun _ ha => ha
    exact hplaced.fits

/-- Once a variable is declared, all parts of its first value are placed. -/
theorem declare_value {name : String} {e : Expr} (h : Γ.StmtPlaced s scope (.declare name e))
    (hd : s.defines scope name = true) : Γ.ExprPlaced s scope e := by
  have hrest : Γ.Placed s scope (e.steps ++ [.define name])
      fun a => e.every (Stmt.careful a) = true := by
    apply Placed.next (x := [.declare name]) h
    · intro a ha
      simp only [Stmt.every, Bool.and_eq_true] at ha
      exact ha.2
    · intro _ _ _ r _ _ hname
      have hsame : r.name = name := by simpa [Step.marks] using hname
      rw [hsame]
      exact hd
  exact hrest.first fun _ ha => ha

theorem assign {target : Variable} {e : Expr} (h : Γ.StmtPlaced s scope (.assign target e)) :
    Γ.ExprPlaced s scope e ∧ Γ.Referred s scope target.name target.id := by
  apply Placed.halves h
  · intro a ha
    simp only [Stmt.every, Bool.and_eq_true] at ha
    exact ⟨ha.2, trivial⟩
  · exact e.marked_steps

theorem update {target : Variable} {op : UpdateOp} (h : Γ.StmtPlaced s scope (.update target op)) :
    Γ.Referred s scope target.name target.id :=
  Placed.imp h fun _ _ => trivial

theorem setMember {object e : Expr} {name : String}
    (h : Γ.StmtPlaced s scope (.setMember object name e)) :
    Γ.ExprPlaced s scope object ∧ Γ.ExprPlaced s scope e := by
  apply Placed.halves h
  · intro a ha
    simp only [Stmt.every, Bool.and_eq_true] at ha
    exact ha.2
  · exact object.marked_steps

theorem block {body : List Stmt} (h : Γ.StmtPlaced s scope (.block body)) (grows : s.Grows t)
    (known : t.origin? inner = some (.block body)) (around : t.parent? inner = some scope) :
    Γ.StmtsPlaced t inner body := by
  apply Placed.inside h _ grows known around (.block body)
  · intro functions hregion
    cases hregion
  · intro a ha
    simp only [Stmt.every, Bool.and_eq_true] at ha
    exact ha.2

theorem test {e : Expr} {a : Stmt} {b : Option Stmt} (h : Γ.StmtPlaced s scope (.ifElse e a b)) :
    Γ.ExprPlaced s scope e := by
  cases b <;>
  · apply Placed.first h
    intro a ha
    simp only [Stmt.every, Bool.and_eq_true] at ha
    exact ha.2.1

theorem thenBranch {e : Expr} {a : Stmt} {b : Option Stmt}
    (h : Γ.StmtPlaced s scope (.ifElse e a b)) : Γ.StmtPlaced s scope a := by
  cases b with
  | none =>
      apply Placed.next_of_marked_eq_nil h _ e.marked_steps
      intro a ha
      simp only [Stmt.every, Bool.and_eq_true] at ha
      exact ha.2.2
  | some b =>
      have hrest : Γ.Placed s scope (a.steps ++ b.steps)
          fun annotations => a.every (Stmt.careful annotations) = true := by
        apply Placed.next_of_marked_eq_nil h _ e.marked_steps
        intro a ha
        simp only [Stmt.every, Bool.and_eq_true] at ha
        exact ha.2.2.1
      exact hrest.first fun _ ha => ha

/-- What follows an `else` does not see the other branch, which is a block. -/
theorem elseBranch {e : Expr} {a b : Stmt} (h : Γ.StmtPlaced s scope (.ifElse e a (some b))) :
    Γ.StmtPlaced s scope b := by
  have hrest : Γ.Placed s scope (a.steps ++ b.steps) fun annotations =>
      (Stmt.ifElse e a (some b)).every (Stmt.careful annotations) = true :=
    Placed.next_of_marked_eq_nil h (fun _ ha => ha) e.marked_steps
  apply hrest.next
  · intro annotations ha
    simp only [Stmt.every, Bool.and_eq_true] at ha
    exact ha.2.2.2
  · intro _ annotations ha r _ _ hname
    have hb := Stmt.of_every ha
    simp only [Stmt.careful, Stmt.branchesAreBlocks, Bool.and_eq_true] at hb
    rw [Stmt.mem_marked_steps_iff] at hname
    cases a with
    | block body => cases hname
    | _ => cases hb.1.1

theorem whileLoop {e : Expr} {body : Stmt} (h : Γ.StmtPlaced s scope (.whileLoop e body)) :
    Γ.ExprPlaced s scope e ∧ Γ.StmtPlaced s scope body := by
  apply Placed.halves h
  · intro a ha
    simp only [Stmt.every, Bool.and_eq_true] at ha
    exact ha.2
  · exact e.marked_steps

theorem ret {e : Expr} (h : Γ.StmtPlaced s scope (.ret (some e))) : Γ.ExprPlaced s scope e := by
  apply Placed.next_of_marked_eq_nil (x := [.exit]) h
  · intro a ha
    simp only [Stmt.every, Bool.and_eq_true] at ha
    exact ha.2
  · rfl

/-- A declared function is placed once its name is there. -/
theorem function {f : Function} (h : Γ.StmtPlaced s scope (.function f))
    (hd : s.defines scope f.displayName = true) : Γ.FunctionPlaced s scope f := by
  refine ⟨.function, ?_⟩
  apply Placed.next (x := [.declare f.displayName, .define f.displayName]) h
  · intro a ha
    simp only [Stmt.every, Bool.and_eq_true] at ha
    exact ha.2
  · intro _ _ _ r _ _ hname
    have hsame : r.name = f.displayName := by simpa [Step.marks] using hname
    rw [hsame]
    exact hd

/-- Branches are blocks, so that nothing is declared by them. -/
theorem declares_ifElse {e : Expr} {a : Stmt} {b : Option Stmt}
    (h : Γ.StmtPlaced s scope (.ifElse e a b)) : Γ.Declares t scope (Stmt.ifElse e a b).declared := by
  intro strict x hx
  obtain ⟨annotations, _, _, _, _, hstrict⟩ := h
  rw [Stmt.declared_eq_nil (hstrict strict).1 rfl] at hx
  cases hx

theorem declares_whileLoop {e : Expr} {body : Stmt} (h : Γ.StmtPlaced s scope (.whileLoop e body)) :
    Γ.Declares t scope (Stmt.whileLoop e body).declared := by
  intro strict x hx
  obtain ⟨annotations, _, _, _, _, hstrict⟩ := h
  rw [Stmt.declared, Stmt.declared_whileLoop_eq_nil (hstrict strict).1] at hx
  cases hx

/-- The names of a statement are names that its scope can hold. -/
theorem named {st : Stmt} (h : Γ.StmtPlaced s scope st) {x : String} (hx : x ∈ st.declared) :
    Γ.Named s scope x :=
  Placed.named h ((Stmt.mem_marked_steps_iff x st).2 hx)

end StmtPlaced

/-- One of several functions that are placed together. -/
theorem Placed.function_of_mem {functions : List Function} {m : Function} (hm : m ∈ functions)
    (h : Γ.Placed s scope (Function.stepsOfAll functions)
      fun a => Function.everyOfAll (Stmt.careful a) functions = true) : Γ.FunctionPlaced s scope m := by
  induction functions with
  | nil => cases hm
  | cons f rest ih =>
      have hhalves : Γ.Placed s scope (f.steps .method) (fun a => f.every (Stmt.careful a) = true) ∧
          Γ.Placed s scope (Function.stepsOfAll rest)
            fun a => Function.everyOfAll (Stmt.careful a) rest = true := by
        apply Placed.halves h
        · intro a ha
          simpa only [Function.everyOfAll, Bool.and_eq_true] using ha
        · exact f.marked_steps
      rcases List.mem_cons.1 hm with rfl | hm
      · exact ⟨.method, hhalves.1⟩
      · exact ih hm hhalves.2

/-- The methods of a class are placed once the name of the class is there. -/
theorem StmtPlaced.methods {name : String} {functions : List Function}
    (h : Γ.StmtPlaced s scope (.classDecl name functions)) (hd : s.defines scope name = true)
    {m : Function} (hm : m ∈ functions) : Γ.MethodPlaced s scope m := by
  intro t inner grows known around hthis
  have hclass : Γ.Placed s scope [.within (.methods functions) (Function.stepsOfAll functions)]
      fun a => Function.everyOfAll (Stmt.careful a) functions = true := by
    apply Placed.next (x := [.declare name, .define name]) h
    · intro a ha
      simp only [Stmt.every, Bool.and_eq_true] at ha
      exact ha.2
    · intro _ _ _ r _ _ hname
      have hsame : r.name = name := by simpa [Step.marks] using hname
      rw [hsame]
      exact hd
  apply Placed.function_of_mem hm
  exact hclass.inside (fun _ ha => ha) grows known around (.binding hm) fun _ _ => hthis

/-! ### Statements in a row, and functions -/

theorem StmtsPlaced.head {st : Stmt} {rest : List Stmt} (h : Γ.StmtsPlaced s scope (st :: rest)) :
    Γ.StmtPlaced s scope st := by
  apply Placed.first h
  intro a ha
  simp only [Stmt.everyOfAll, Bool.and_eq_true] at ha
  exact ha.1

/-- The statements after one that has been executed. -/
theorem StmtsPlaced.tail {st : Stmt} {rest : List Stmt} (h : Γ.StmtsPlaced s scope (st :: rest))
    (hd : Γ.Declares s scope st.declared) : Γ.StmtsPlaced s scope rest := by
  apply Placed.next h
  · intro a ha
    simp only [Stmt.everyOfAll, Bool.and_eq_true] at ha
    exact ha.2
  · intro strict _ _ r _ _ hname
    exact hd strict r.name ((Stmt.mem_marked_steps_iff r.name st).1 hname)

/-- The body of a function, in the scope of a call in which the parameters have their values. -/
theorem FunctionPlaced.body {f : Function} (h : Γ.FunctionPlaced s scope f) (grows : s.Grows t)
    (known : t.origin? inner = some (.call f)) (around : t.parent? inner = some scope)
    (hd : ∀ x ∈ f.paramNames, t.defines inner x = true) : Γ.StmtsPlaced t inner f.body := by
  obtain ⟨kind, h⟩ := h
  rw [Function.steps_eq] at h
  have hinside : Γ.Placed t inner (Param.steps f.params ++ Stmt.stepsOfAll f.body)
      fun a => f.every (Stmt.careful a) = true := by
    apply Placed.inside h (fun _ ha => ha) grows known around (.call kind f)
    intro functions hregion
    cases hregion
  apply hinside.next
  · intro a ha
    rwa [Function.every_eq] at ha
  · intro _ _ _ r _ _ hname
    exact hd r.name ((Param.mem_marked_steps_iff f.params r.name).1 hname)

end Kiln.Setting
