/-
Module: Kiln.Proofs.Scoping.Regions
Purpose: The names that belong to the scope of each region. A statement declares names directly in the scope
  around it, also through branches and loop bodies that are no blocks; nothing else gets into the
  table that the analysis keeps for that scope.
Main exports: Stmt.declared, Program.declared, Region.names, Step.mem_marked_steps_iff, Region.Describes,
  Step.Meets.describes
-/
import Kiln.Proofs.Scoping.Walk

namespace Kiln

/-- The names that a statement declares in the scope around it. -/
def Stmt.declared : Stmt → List String
  | .declare name _ => [name]
  | .function f => [f.displayName]
  | .classDecl name _ => [name]
  | .ifElse _ thenBranch none => thenBranch.declared
  | .ifElse _ thenBranch (some elseBranch) => thenBranch.declared ++ elseBranch.declared
  | .whileLoop _ body => body.declared
  | _ => []

/-- The names that several statements declare in the scope around them. -/
def Stmt.declaredOfAll (ss : List Stmt) : List String := ss.flatMap Stmt.declared

/-- The names that a program declares at its top level. -/
def Program.declared (p : Program) : List String := p.flatMap fun node => node.value.declared

/-- The names that exist before any program. -/
def builtinNames : List String := ["print", "VERSION"]

/-- The names that the scope of a region can hold. -/
def Region.names : Region → List String
  | .block body => Stmt.declaredOfAll body
  | .function _ f => f.paramNames ++ Stmt.declaredOfAll f.body
  | .methods _ => ["this"]

/-! ### The steps of a region put its own names into its scope -/

theorem Function.marked_steps {kind : FunctionKind} (f : Function) : Step.marked (f.steps kind) = [] := by
  rw [Function.steps_eq]
  rfl

theorem Function.marked_stepsOfAll (fs : List Function) :
    Step.marked (Function.stepsOfAll fs) = [] := by
  induction fs with
  | nil => rfl
  | cons f rest ih => simp [Function.stepsOfAll, Function.marked_steps, ih]

mutual

/-- An expression puts no names into the scope around it. -/
theorem Expr.marked_steps : ∀ e : Expr, Step.marked e.steps = []
  | .number _ => rfl
  | .text _ => rfl
  | .bool _ => rfl
  | .var _ _ => rfl
  | .this _ => rfl
  | .binary _ left right => by
      simp [Expr.steps, Expr.marked_steps left, Expr.marked_steps right]
  | .logical _ left right => by
      simp [Expr.steps, Expr.marked_steps left, Expr.marked_steps right]
  | .unary _ operand => by simp [Expr.steps, Expr.marked_steps operand]
  | .member object _ => by simp [Expr.steps, Expr.marked_steps object]
  | .call callee args => by
      simp [Expr.steps, Expr.marked_steps callee, Expr.marked_stepsOfAll args]
  | .lambda f => by simp [Expr.steps, Function.marked_steps f]

theorem Expr.marked_stepsOfAll : ∀ es : List Expr, Step.marked (Expr.stepsOfAll es) = []
  | [] => rfl
  | e :: rest => by
      simp [Expr.stepsOfAll, Expr.marked_steps e, Expr.marked_stepsOfAll rest]

end

theorem Expr.mem_marked_steps_iff (e : Expr) (x : String) :
    x ∈ Step.marked e.steps ↔ x ∈ ([] : List String) := by
  rw [e.marked_steps]

theorem Param.mem_marked_steps_iff (ps : List Param) (x : String) :
    x ∈ Step.marked (Param.steps ps) ↔ x ∈ ps.map (·.name) := by
  induction ps with
  | nil => simp [Param.steps]
  | cons p rest ih => simp [Param.steps, Step.marks, ih]

/-- A statement puts the names that it declares into the scope around it, and no others. -/
theorem Stmt.mem_marked_steps_iff (x : String) (s : Stmt) :
    x ∈ Step.marked s.steps ↔ x ∈ s.declared := by
  cases s with
  | expr e => simp [Stmt.steps, Stmt.declared, Expr.marked_steps]
  | declare _ value => simp [Stmt.steps, Stmt.declared, Step.marks, Expr.marked_steps]
  | assign _ value => simp [Stmt.steps, Stmt.declared, Step.marks, Expr.marked_steps]
  | update _ _ => simp [Stmt.steps, Stmt.declared, Step.marks]
  | setMember object _ value => simp [Stmt.steps, Stmt.declared, Expr.marked_steps]
  | block _ => simp [Stmt.steps, Stmt.declared, Step.marks]
  | ifElse test thenBranch elseBranch =>
      cases elseBranch with
      | none =>
          simp [Stmt.steps, Stmt.declared, Expr.marked_steps, Stmt.mem_marked_steps_iff x thenBranch]
      | some elseBranch =>
          simp [Stmt.steps, Stmt.declared, Expr.marked_steps, Stmt.mem_marked_steps_iff x thenBranch,
            Stmt.mem_marked_steps_iff x elseBranch]
  | whileLoop test body =>
      simp [Stmt.steps, Stmt.declared, Expr.marked_steps, Stmt.mem_marked_steps_iff x body]
  | function f => simp [Stmt.steps, Stmt.declared, Step.marks, Function.marked_steps]
  | ret value =>
      cases value with
      | none => simp [Stmt.steps, Stmt.declared, Step.marks]
      | some value => simp [Stmt.steps, Stmt.declared, Step.marks, Expr.marked_steps]
  | classDecl _ methods => simp [Stmt.steps, Stmt.declared, Step.marks]

theorem Stmt.mem_marked_stepsOfAll_iff (x : String) (ss : List Stmt) :
    x ∈ Step.marked (Stmt.stepsOfAll ss) ↔ x ∈ Stmt.declaredOfAll ss := by
  induction ss with
  | nil => simp [Stmt.stepsOfAll, Stmt.declaredOfAll]
  | cons s rest ih =>
      rw [Stmt.stepsOfAll, Step.marked_append, List.mem_append, ih, Stmt.mem_marked_steps_iff]
      simp [Stmt.declaredOfAll]

theorem Program.mem_marked_steps_iff (x : String) (p : Program) :
    x ∈ Step.marked (Program.steps p) ↔ x ∈ Program.declared p := by
  induction p with
  | nil => simp [Program.steps, Program.declared]
  | cons node rest ih =>
      rw [Program.steps, Step.marked_append, List.mem_append, ih, Stmt.mem_marked_steps_iff]
      simp [Program.declared]

namespace Step

mutual

/-- Inside each region of a step, only names of the region are put into its scope. -/
def Fitting : Step → Prop
  | .within region body => (∀ x ∈ marked body, x ∈ region.names) ∧ FittingAll body
  | _ => True

/-- Inside each region of several steps, only names of the region are put into its scope. -/
def FittingAll : List Step → Prop
  | [] => True
  | step :: rest => step.Fitting ∧ FittingAll rest

end

@[simp]
theorem fittingAll_append (a b : List Step) :
    FittingAll (a ++ b) ↔ FittingAll a ∧ FittingAll b := by
  induction a with
  | nil => simp [FittingAll]
  | cons step rest ih => simp [FittingAll, ih, and_assoc]

end Step

theorem Param.fittingAll_steps (ps : List Param) : Step.FittingAll (Param.steps ps) := by
  induction ps with
  | nil => trivial
  | cons p rest ih => exact ⟨trivial, trivial, ih⟩

mutual

theorem Expr.fittingAll_steps : ∀ e : Expr, Step.FittingAll e.steps
  | .number _ => trivial
  | .text _ => trivial
  | .bool _ => trivial
  | .var _ _ => ⟨trivial, trivial, trivial⟩
  | .this _ => ⟨trivial, trivial⟩
  | .binary _ left right => by
      simp [Expr.steps, Expr.fittingAll_steps left, Expr.fittingAll_steps right]
  | .logical _ left right => by
      simp [Expr.steps, Expr.fittingAll_steps left, Expr.fittingAll_steps right]
  | .unary _ operand => by simp [Expr.steps, Expr.fittingAll_steps operand]
  | .member object _ => by simp [Expr.steps, Expr.fittingAll_steps object]
  | .call callee args => by
      simp [Expr.steps, Expr.fittingAll_steps callee, Expr.fittingAll_stepsOfAll args]
  | .lambda f => by simp [Expr.steps, Function.fittingAll_steps f]

theorem Expr.fittingAll_stepsOfAll : ∀ es : List Expr, Step.FittingAll (Expr.stepsOfAll es)
  | [] => trivial
  | e :: rest => by
      simp [Expr.stepsOfAll, Expr.fittingAll_steps e, Expr.fittingAll_stepsOfAll rest]

theorem Stmt.fittingAll_steps : ∀ s : Stmt, Step.FittingAll s.steps
  | .expr e => by simp [Stmt.steps, Expr.fittingAll_steps e]
  | .declare _ value => by
      simp [Stmt.steps, Step.FittingAll, Step.Fitting, Expr.fittingAll_steps value]
  | .assign _ value => by
      simp [Stmt.steps, Step.FittingAll, Step.Fitting, Expr.fittingAll_steps value]
  | .update _ _ => ⟨trivial, trivial⟩
  | .setMember object _ value => by
      simp [Stmt.steps, Expr.fittingAll_steps object, Expr.fittingAll_steps value]
  | .block body =>
      ⟨⟨fun x => (Stmt.mem_marked_stepsOfAll_iff x body).1, Stmt.fittingAll_stepsOfAll body⟩, trivial⟩
  | .ifElse test thenBranch none => by
      simp [Stmt.steps, Expr.fittingAll_steps test, Stmt.fittingAll_steps thenBranch]
  | .ifElse test thenBranch (some elseBranch) => by
      simp [Stmt.steps, Expr.fittingAll_steps test, Stmt.fittingAll_steps thenBranch,
        Stmt.fittingAll_steps elseBranch]
  | .whileLoop test body => by
      simp [Stmt.steps, Expr.fittingAll_steps test, Stmt.fittingAll_steps body]
  | .function f => by
      simp [Stmt.steps, Step.FittingAll, Step.Fitting, Function.fittingAll_steps f]
  | .ret none => ⟨trivial, trivial⟩
  | .ret (some value) => by
      simp [Stmt.steps, Step.FittingAll, Step.Fitting, Expr.fittingAll_steps value]
  | .classDecl _ methods => by
      simp [Stmt.steps, Step.FittingAll, Step.Fitting, Function.marked_stepsOfAll,
        Function.fittingAll_stepsOfAll methods]

theorem Stmt.fittingAll_stepsOfAll : ∀ ss : List Stmt, Step.FittingAll (Stmt.stepsOfAll ss)
  | [] => trivial
  | s :: rest => by
      simp [Stmt.stepsOfAll, Stmt.fittingAll_steps s, Stmt.fittingAll_stepsOfAll rest]

theorem Function.fittingAll_steps {kind : FunctionKind} : ∀ f : Function, Step.FittingAll (f.steps kind)
  | ⟨name, params, returnType, body⟩ => by
      have hbody := Stmt.fittingAll_stepsOfAll body
      simp [Function.steps, Step.FittingAll, Step.Fitting, Param.fittingAll_steps, hbody,
        Param.mem_marked_steps_iff, Stmt.mem_marked_stepsOfAll_iff, Region.names, Function.paramNames]

theorem Function.fittingAll_stepsOfAll :
    ∀ fs : List Function, Step.FittingAll (Function.stepsOfAll fs)
  | [] => trivial
  | f :: rest => by
      simp [Function.stepsOfAll, Function.fittingAll_steps f, Function.fittingAll_stepsOfAll rest]

end

theorem Program.fittingAll_steps (p : Program) : Step.FittingAll (Program.steps p) := by
  induction p with
  | nil => trivial
  | cons node rest ih => simp [Program.steps, Stmt.fittingAll_steps, ih]

/-! ### Tables hold names of their regions -/

/-- A table with only names of a region, and with `this` if the region is that of methods. -/
def Region.Describes (region : Region) (table : NameTable) : Prop :=
  (∀ x ∈ table, x ∈ region.names) ∧ ∀ functions, region = .methods functions → "this" ∈ table

/-- The names that can be put into the scope in which `steps` are met. -/
def Region.innermostNames (all : List Step) : List Region → List String
  | [] => Step.marked all
  | region :: _ => region.names

theorem Region.describes_enter (region : Region) (n : Names) :
    ∃ table, (n.enter region).locals = table :: n.locals ∧ region.Describes table := by
  cases region with
  | block body => exact ⟨∅, rfl, by simp [Region.Describes]⟩
  | function kind f => exact ⟨∅, rfl, by simp [Region.Describes]⟩
  | methods functions =>
      refine ⟨(∅ : NameTable).insert "this" true, rfl, fun x hx => ?_, by simp⟩
      rw [Std.ExtTreeMap.mem_insert, Std.compare_eq_iff_eq] at hx
      simpa [Region.names, eq_comm] using hx

namespace Step.Meets

variable {all steps : List Step} {names : Names} {regions : List Region}

/-- Every scope holds names of its own region, and the steps that are met put only such names into the
    innermost one. -/
theorem describes (fitting : FittingAll all) (h : Meets all steps names regions) :
    FittingAll steps ∧ (∀ x ∈ marked steps, x ∈ Region.innermostNames all regions) ∧
      ∀ (k : Nat) (table : NameTable), names.locals[k]? = some table →
        ∃ region : Region, regions[k]? = some region ∧ region.Describes table := by
  induction h with
  | start => exact ⟨fitting, fun x hx => hx, by simp [Names.initial]⟩
  | first _ ih =>
      obtain ⟨hfit, hmarked, htables⟩ := ih
      refine ⟨((fittingAll_append _ _).1 hfit).1, fun x hx => hmarked x ?_, htables⟩
      exact marked_append _ _ ▸ List.mem_append_left _ hx
  | @next a b names later regions hmeets taken ih =>
      obtain ⟨hfit, hmarked, htables⟩ := ih
      refine ⟨((fittingAll_append _ _).1 hfit).2, fun x hx => hmarked x ?_, fun k table hk => ?_⟩
      · exact marked_append _ _ ▸ List.mem_append_right _ hx
      · rcases runAll_grows a taken with ⟨_, hlater⟩ | ⟨inner, inner', outer, hnames, hlater, hgrown⟩
        · simp [hlater] at hk
        · rw [hlater] at hk
          cases k with
          | succ k => exact htables (k + 1) table (by rw [hnames]; exact hk)
          | zero =>
              cases hk
              obtain ⟨region, hregion, hold, hthis⟩ := htables 0 inner (by rw [hnames]; rfl)
              refine ⟨region, hregion, fun x hx => ?_, fun fs hfs => ?_⟩
              · rcases (hgrown x).1 hx with hx | hx
                · exact hold x hx
                · have hin := hmarked x (marked_append _ _ ▸ List.mem_append_left _ hx)
                  cases regions with
                  | nil => cases hregion
                  | cons r rs =>
                      cases hregion
                      exact hin
              · exact (hgrown "this").2 (.inl (hthis fs hfs))
  | @inside region body names regions _ ih =>
      obtain ⟨⟨⟨hmarks, hbody⟩, _⟩, _, htables⟩ := ih
      refine ⟨hbody, hmarks, fun k table hk => ?_⟩
      obtain ⟨entered, hentered, hdescribes⟩ := region.describes_enter names
      rw [hentered] at hk
      cases k with
      | zero =>
          cases hk
          exact ⟨region, rfl, hdescribes⟩
      | succ k => exact htables k table hk

end Step.Meets

end Kiln
