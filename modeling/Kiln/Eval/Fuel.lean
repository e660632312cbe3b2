/-
Module: Kiln.Eval.Fuel
Purpose: The bound on evaluation only decides whether an outcome is reached, never which one. If a run
  ends within some bound, in a value or in a failure, it ends in the same way, with the same world, within
  every larger bound.
Main exports: Extends, Evaluate.extends_succ, Evaluate.stmt_extends_of_le
-/
import Kiln.Eval.Evaluate

namespace Kiln

/-- `q` does what `p` does, except that it may go on where `p` runs out of fuel. -/
def Extends {α : Type} (p q : Eval α) : Prop :=
  ∀ w, (∃ w', p w = .error .outOfFuel w') ∨ q w = p w

namespace Extends

theorem refl {α : Type} (p : Eval α) : Extends p p := fun _ => .inr rfl

theorem outOfFuel {α : Type} (q : Eval α) : Extends (throw .outOfFuel) q :=
  fun w => .inl ⟨w, rfl⟩

theorem bind {α β : Type} {p q : Eval α} {f g : α → Eval β} (h : Extends p q)
    (hf : ∀ a, Extends (f a) (g a)) : Extends (p >>= f) (q >>= g) := by
  intro w
  rcases h w with ⟨w', hp⟩ | hq
  · exact .inl ⟨w', by simp only [Bind.bind, EStateM.bind, hp]⟩
  · simp only [Bind.bind, EStateM.bind, hq]
    cases p w with
    | ok a w' => exact hf a w'
    | error e w' => exact .inr rfl

theorem trans {α : Type} {p q r : Eval α} (h : Extends p q) (k : Extends q r) : Extends p r := by
  intro w
  rcases h w with hp | hq
  · exact .inl hp
  · rcases k w with ⟨w', hk⟩ | hr
    · exact .inl ⟨w', by rw [← hq, hk]⟩
    · exact .inr (by rw [hr, hq])

end Extends

namespace Evaluate

/-- One more unit of fuel only lets every rule go further. -/
theorem extends_succ (find : Finder) (n : Nat) :
    (∀ e s, Extends (expr find n e s) (expr find (n + 1) e s)) ∧
    (∀ es s, Extends (exprs find n es s) (exprs find (n + 1) es s)) ∧
    (∀ op e s, Extends (operand find n op e s) (operand find (n + 1) op e s)) ∧
    (∀ e s, Extends (condition find n e s) (condition find (n + 1) e s)) ∧
    (∀ v args, Extends (call find n v args) (call find (n + 1) v args)) ∧
    (∀ c args, Extends (callClosure find n c args) (callClosure find (n + 1) c args)) ∧
    (∀ st s, Extends (stmt find n st s) (stmt find (n + 1) st s)) ∧
    (∀ sts s, Extends (stmts find n sts s) (stmts find (n + 1) sts s)) ∧
    (∀ t b s, Extends (loop find n t b s) (loop find (n + 1) t b s)) := by
  induction n with
  | zero =>
      refine ⟨?_, ?_, ?_, ?_, ?_, ?_, ?_, ?_, ?_⟩
      · intro e s; rw [expr]; exact .outOfFuel _
      · intro e s; rw [exprs]; exact .outOfFuel _
      · intro _ e s; rw [operand]; exact .outOfFuel _
      · intro e s; rw [condition]; exact .outOfFuel _
      · intro e s; rw [call]; exact .outOfFuel _
      · intro e s; rw [callClosure]; exact .outOfFuel _
      · intro e s; rw [stmt]; exact .outOfFuel _
      · intro e s; rw [stmts]; exact .outOfFuel _
      · intro _ e s; rw [loop]; exact .outOfFuel _
  | succ n ih =>
      obtain ⟨ihe, ihes, iho, ihc, ihcall, ihcl, ihs, ihss, ihl⟩ := ih
      refine ⟨?_, ?_, ?_, ?_, ?_, ?_, ?_, ?_, ?_⟩
      · intro e s
        cases e with
        | binary op l r =>
            simp only [expr]
            exact .bind (ihe l s) fun a => .bind (ihe r s) fun b => .refl _
        | logical op l r =>
            simp only [expr]
            refine .bind (iho op l s) fun a => ?_
            split
            · exact .refl _
            · exact .bind (iho op r s) fun b => .refl _
        | unary op e =>
            simp only [expr]
            exact .bind (ihe e s) fun a => .refl _
        | member o p =>
            simp only [expr]
            exact .bind (ihe o s) fun a => .refl _
        | call f args =>
            simp only [expr]
            exact .bind (ihe f s) fun a => .bind (ihes args s) fun b => ihcall a b
        | _ => simp only [expr]; exact .refl _
      · intro es s
        cases es with
        | nil => simp only [exprs]; exact .refl _
        | cons e rest =>
            simp only [exprs]
            exact .bind (ihe e s) fun a => .bind (ihes rest s) fun b => .refl _
      · intro op e s
        simp only [operand]
        exact .bind (ihe e s) fun a => .refl _
      · intro e s
        simp only [condition]
        exact .bind (ihe e s) fun a => .refl _
      · intro v args
        cases v with
        | closure c => simp only [call]; exact ihcl c args
        | classValue c =>
            simp only [call]
            refine .bind (.refl _) fun o => ?_
            split
            · exact .bind (.refl _) fun b => .bind (ihcl b args) fun _ => .refl _
            · exact .refl _
        | _ => simp only [call]; exact .refl _
      · intro c args
        simp only [callClosure]
        split
        · exact .refl _
        · exact .bind (.refl _) fun s => .bind (.refl _) fun _ => .bind (ihss _ s) fun a => .refl _
      · intro st s
        cases st with
        | expr e => simp only [stmt]; exact .bind (ihe e s) fun a => .refl _
        | declare x e => simp only [stmt]; exact .bind (ihe e s) fun a => .refl _
        | assign x e => simp only [stmt]; exact .bind (ihe e s) fun a => .refl _
        | setMember o p e =>
            simp only [stmt]
            refine .bind (ihe o s) fun a => ?_
            split
            · exact .bind (ihe e s) fun b => .refl _
            · exact .refl _
        | block b => simp only [stmt]; exact .bind (.refl _) fun i => ihss b i
        | ifElse t a b =>
            simp only [stmt]
            refine .bind (ihc t s) fun c => ?_
            split
            · exact ihs a s
            · split
              · exact ihs _ s
              · exact .refl _
        | whileLoop t b => simp only [stmt]; exact ihl t b s
        | ret v =>
            cases v with
            | none => simp only [stmt]; exact .refl _
            | some e => simp only [stmt]; exact .bind (ihe e s) fun a => .refl _
        | _ => simp only [stmt]; exact .refl _
      · intro sts s
        cases sts with
        | nil => simp only [stmts]; exact .refl _
        | cons st rest =>
            simp only [stmts]
            refine .bind (ihs st s) fun c => ?_
            split
            · exact .refl _
            · exact ihss rest s
      · intro t b s
        simp only [loop]
        refine .bind (ihc t s) fun c => ?_
        split
        · refine .bind (ihs b s) fun d => ?_
          split
          · exact .refl _
          · exact ihl t b s
        · exact .refl _

/-- More fuel only lets the execution of a statement go further. -/
theorem stmt_extends_of_le (find : Finder) {n m : Nat} (h : n ≤ m) (s : Stmt) (scope : ScopeId) :
    Extends (stmt find n s scope) (stmt find m s scope) := by
  induction h with
  | refl => exact .refl _
  | step _ ih => exact ih.trans ((extends_succ find _).2.2.2.2.2.2.1 s scope)

end Evaluate

end Kiln
