/-
Module: Kiln.Proofs.Updates.Expanding
Purpose: Writing every update of a program as an assignment. `x++` becomes `x = x + 1`, and `x--` becomes
  `x = x - 1`, at every depth; the read of `x` that is added gets an id of its own. The two programs do the same
  step by step. The scope analysis, which does not look at updates as it looks at reads, treats them
  alike, since between two statements every name can be read.
Main exports: Stmt.expandUpdates, Program.expandUpdates, Program.twin_expandUpdates,
  Program.retraces_expandUpdates, Scoping.program_expandUpdates_of_error
-/
import Kiln.Proofs.Scoping.Discipline
import Kiln.Proofs.Scoping.Retracing
import Kiln.Proofs.Twins.Programs

namespace Kiln

/-! ### The program with assignments -/

/-- The assignment that says the same as an update: `x = x + 1` for `x++`, and `x = x - 1` for `x--`. The read
    that it adds has the id `fresh` of that of the update. -/
def Variable.step (fresh : NodeId → NodeId) (target : Variable) : UpdateOp → Stmt
  | .increment => .assign target (.binary .add (.var target.name (fresh target.id)) (.number 1))
  | .decrement => .assign target (.binary .sub (.var target.name (fresh target.id)) (.number 1))

mutual

/-- An expression with assignments in place of updates. -/
def Expr.expandUpdates (fresh : NodeId → NodeId) : Expr → Expr
  | .number value => .number value
  | .text value => .text value
  | .bool value => .bool value
  | .var name id => .var name id
  | .this id => .this id
  | .binary op left right => .binary op (left.expandUpdates fresh) (right.expandUpdates fresh)
  | .logical op left right => .logical op (left.expandUpdates fresh) (right.expandUpdates fresh)
  | .unary op operand => .unary op (operand.expandUpdates fresh)
  | .member object property => .member (object.expandUpdates fresh) property
  | .call callee args => .call (callee.expandUpdates fresh) (Expr.expandAllUpdates fresh args)
  | .lambda function => .lambda (function.expandUpdates fresh)

/-- Several expressions with assignments in place of updates. -/
def Expr.expandAllUpdates (fresh : NodeId → NodeId) : List Expr → List Expr
  | [] => []
  | e :: rest => e.expandUpdates fresh :: Expr.expandAllUpdates fresh rest

/-- A statement with assignments in place of updates. -/
def Stmt.expandUpdates (fresh : NodeId → NodeId) : Stmt → Stmt
  | .expr e => .expr (e.expandUpdates fresh)
  | .declare name value => .declare name (value.expandUpdates fresh)
  | .assign target value => .assign target (value.expandUpdates fresh)
  | .update target op => target.step fresh op
  | .setMember object property value =>
    .setMember (object.expandUpdates fresh) property (value.expandUpdates fresh)
  | .block body => .block (Stmt.expandAllUpdates fresh body)
  | .ifElse test thenBranch none =>
    .ifElse (test.expandUpdates fresh) (thenBranch.expandUpdates fresh) none
  | .ifElse test thenBranch (some elseBranch) =>
    .ifElse (test.expandUpdates fresh) (thenBranch.expandUpdates fresh)
      (some (elseBranch.expandUpdates fresh))
  | .whileLoop test body => .whileLoop (test.expandUpdates fresh) (body.expandUpdates fresh)
  | .function function => .function (function.expandUpdates fresh)
  | .ret none => .ret none
  | .ret (some value) => .ret (some (value.expandUpdates fresh))
  | .classDecl name methods => .classDecl name (Function.expandAllUpdates fresh methods)

/-- Several statements with assignments in place of updates. -/
def Stmt.expandAllUpdates (fresh : NodeId → NodeId) : List Stmt → List Stmt
  | [] => []
  | s :: rest => s.expandUpdates fresh :: Stmt.expandAllUpdates fresh rest

/-- A function with assignments in place of updates. -/
def Function.expandUpdates (fresh : NodeId → NodeId) : Function → Function
  | ⟨name, params, returnType, body⟩ => ⟨name, params, returnType, Stmt.expandAllUpdates fresh body⟩

/-- Several functions with assignments in place of updates. -/
def Function.expandAllUpdates (fresh : NodeId → NodeId) : List Function → List Function
  | [] => []
  | f :: rest => f.expandUpdates fresh :: Function.expandAllUpdates fresh rest

end

/-- A program with assignments in place of updates. -/
def Program.expandUpdates (fresh : NodeId → NodeId) (p : Program) : Program :=
  p.map fun node => ⟨node.line, node.value.expandUpdates fresh⟩

/-! ### Both programs do the same -/

/-- Whether a statement is an update. -/
def Stmt.isUpdate : Stmt → Bool
  | .update _ _ => true
  | _ => false

theorem Stmt.isUpdate_of_isBlock {s : Stmt} (h : s.isBlock = true) : s.isUpdate = false := by
  cases s with
  | update _ _ => cases h
  | _ => rfl

theorem Stmt.isUpdate_of_isAlternative {s : Stmt} (h : s.isAlternative = true) :
    s.isUpdate = false := by
  cases s with
  | update _ _ => cases h
  | _ => rfl

/-- An id belongs to itself and to the read that is added for it. -/
def Added (fresh : NodeId → NodeId) (i j : NodeId) : Prop := j = i ∨ j = fresh i

section Twins

variable (fresh : NodeId → NodeId)

theorem Variable.twin_added (v : Variable) : v.Twin (Added fresh) v := ⟨rfl, .inl rfl⟩

/-- An update is evaluated with the operator that its assignment writes out. -/
theorem Variable.step_eq (target : Variable) (op : UpdateOp) :
    target.step fresh op = .assign target (.binary op.binary (.var target.name (fresh target.id)) (.number 1)) := by
  cases op with
  | increment => rfl
  | decrement => rfl

theorem Stmt.change_step (target : Variable) (op : UpdateOp) :
    Stmt.Change (Added fresh) (.update target op) (target.step fresh op) := by
  rw [target.step_eq fresh op]
  exact .mk op (target.twin_added fresh) (.inr rfl)

mutual

/-- An expression does the same with assignments in place of updates. -/
theorem Expr.twin_expandUpdates : ∀ e : Expr, e.every Stmt.branchesAreBlocks = true →
    e.Twin (Added fresh) (e.expandUpdates fresh)
  | .number n, _ => .number n
  | .text s, _ => .text s
  | .bool b, _ => .bool b
  | .var name _, _ => .var name (.inl rfl)
  | .this _, _ => .this (.inl rfl)
  | .binary op left right, h => by
      simp only [Expr.every, Bool.and_eq_true] at h
      exact .binary op (left.twin_expandUpdates h.1) (right.twin_expandUpdates h.2)
  | .logical op left right, h => by
      simp only [Expr.every, Bool.and_eq_true] at h
      exact .logical op (left.twin_expandUpdates h.1) (right.twin_expandUpdates h.2)
  | .unary op operand, h => .unary op (operand.twin_expandUpdates h)
  | .member object name, h => .member name (object.twin_expandUpdates h)
  | .call callee args, h => by
      simp only [Expr.every, Bool.and_eq_true] at h
      exact .call (callee.twin_expandUpdates h.1) (Expr.twins_expandUpdates args h.2)
  | .lambda f, h => .lambda (f.twin_expandUpdates h)

theorem Expr.twins_expandUpdates : ∀ es : List Expr, Expr.everyOfAll Stmt.branchesAreBlocks es = true →
    Expr.Twins (Added fresh) es (Expr.expandAllUpdates fresh es)
  | [], _ => .nil
  | e :: rest, h => by
      simp only [Expr.everyOfAll, Bool.and_eq_true] at h
      exact .cons (e.twin_expandUpdates h.1) (Expr.twins_expandUpdates rest h.2)

/-- A statement other than an update does the same with assignments in place of the updates inside it. No branch
    of it is an update, so that it also completes in the same way. -/
theorem Stmt.twin_expandUpdates : ∀ s : Stmt, s.every Stmt.branchesAreBlocks = true →
    s.isUpdate = false → s.Twin (Added fresh) (s.expandUpdates fresh)
  | .expr e, h, _ => by
      simp only [Stmt.every, Bool.and_eq_true] at h
      exact .expr (e.twin_expandUpdates h.2)
  | .declare name value, h, _ => by
      simp only [Stmt.every, Bool.and_eq_true] at h
      exact .declare name (value.twin_expandUpdates h.2)
  | .assign target value, h, _ => by
      simp only [Stmt.every, Bool.and_eq_true] at h
      exact .assign (target.twin_added fresh) (value.twin_expandUpdates h.2)
  | .setMember object name value, h, _ => by
      simp only [Stmt.every, Bool.and_eq_true] at h
      exact .setMember name (object.twin_expandUpdates h.2.1) (value.twin_expandUpdates h.2.2)
  | .block body, h, _ => by
      simp only [Stmt.every, Bool.and_eq_true] at h
      exact .block (Stmt.twins_expandUpdates body h.2)
  | .ifElse test thenBranch none, h, _ => by
      simp only [Stmt.every, Stmt.branchesAreBlocks, Bool.and_eq_true] at h
      have hthen := Stmt.isUpdate_of_isBlock h.1
      exact .ifThen (test.twin_expandUpdates h.2.1) (thenBranch.twin_expandUpdates h.2.2 hthen)
  | .ifElse test thenBranch (some elseBranch), h, _ => by
      simp only [Stmt.every, Stmt.branchesAreBlocks, Bool.and_eq_true] at h
      have hthen := Stmt.isUpdate_of_isBlock h.1.1
      have helse := Stmt.isUpdate_of_isAlternative h.1.2
      exact .ifElse (test.twin_expandUpdates h.2.1) (thenBranch.twin_expandUpdates h.2.2.1 hthen)
        (elseBranch.twin_expandUpdates h.2.2.2 helse)
  | .whileLoop test body, h, _ => by
      simp only [Stmt.every, Stmt.branchesAreBlocks, Bool.and_eq_true] at h
      have hbody := Stmt.isUpdate_of_isBlock h.1
      exact .whileLoop (test.twin_expandUpdates h.2.1) (body.twin_expandUpdates h.2.2 hbody)
  | .function f, h, _ => by
      simp only [Stmt.every, Bool.and_eq_true] at h
      exact .function (f.twin_expandUpdates h.2)
  | .ret none, _, _ => .ret
  | .ret (some value), h, _ => by
      simp only [Stmt.every, Bool.and_eq_true] at h
      exact .retValue (value.twin_expandUpdates h.2)
  | .classDecl name methods, h, _ => by
      simp only [Stmt.every, Bool.and_eq_true] at h
      exact .classDecl name (Function.twins_expandUpdates methods h.2)

theorem Stmt.twins_expandUpdates : ∀ ss : List Stmt, Stmt.everyOfAll Stmt.branchesAreBlocks ss = true →
    Stmt.Twins (Added fresh) ss (Stmt.expandAllUpdates fresh ss)
  | [], _ => .nil
  | s :: rest, h => by
      simp only [Stmt.everyOfAll, Bool.and_eq_true] at h
      cases hs : s.isUpdate with
      | false => exact .cons (s.twin_expandUpdates h.1 hs) (Stmt.twins_expandUpdates rest h.2)
      | true =>
          cases s with
          | update target op =>
              exact .change (Stmt.change_step fresh target op) (Stmt.twins_expandUpdates rest h.2)
          | _ => cases hs

theorem Function.twin_expandUpdates : ∀ f : Function, f.every Stmt.branchesAreBlocks = true →
    f.Twin (Added fresh) (f.expandUpdates fresh)
  | ⟨name, params, returnType, body⟩, h => .mk name params returnType (Stmt.twins_expandUpdates body h)

theorem Function.twins_expandUpdates : ∀ fs : List Function,
    Function.everyOfAll Stmt.branchesAreBlocks fs = true →
    Function.Twins (Added fresh) fs (Function.expandAllUpdates fresh fs)
  | [], _ => .nil
  | f :: rest, h => by
      simp only [Function.everyOfAll, Bool.and_eq_true] at h
      exact .cons (f.twin_expandUpdates h.1) (Function.twins_expandUpdates rest h.2)

end

/-- A program does the same with assignments in place of updates. -/
theorem Program.twin_expandUpdates (p : Program) (h : p.every Stmt.branchesAreBlocks = true) :
    p.Twin (Added fresh) (p.expandUpdates fresh) := by
  induction p with
  | nil => exact .nil
  | cons node rest ih =>
      obtain ⟨line, s⟩ := node
      simp only [Program.every, List.all_cons, Bool.and_eq_true] at h
      cases hs : s.isUpdate with
      | false => exact .cons line (s.twin_expandUpdates fresh h.1 hs) (ih h.2)
      | true =>
          cases s with
          | update target op => exact .change line (Stmt.change_step fresh target op) (ih h.2)
          | _ => cases hs

end Twins

/-! ### The scope analysis of both programs -/

namespace Step.Retraces

variable {fresh : NodeId → NodeId} {t t' : NodeId → Option Nat} {n n' : Names}

/-- Where all names can be read, reading a variable before it is written to changes nothing. -/
theorem added (ready : n.Ready) (same : n.Same n') (name : String) (id : NodeId) :
    Retraces True (Added fresh) t t' Names.Same [.locate name id]
      [.refuse name, .locate name (fresh id), .locate name id] n n' := by
  have hrefuse : (Step.refuse name).run n' = .ok () n' := by
    rw [run_refuse_eq_ok, same.innermost]
    exact ⟨ready name, rfl⟩
  obtain ⟨k, hk, hsame⟩ : ∃ k, (Step.locate name (fresh id)).run n' = .ok () k ∧ n'.Same k := by
    refine ⟨_, run_locate n', ?_⟩
    cases n'.distance? name with
    | none => exact .refl n'
    | some d => exact ⟨rfl, rfl, rfl⟩
  have hlast : Retraces True (Added fresh) t t' Names.Same [.locate name id] [.locate name id] n k :=
    locate (same.trans hsame) name (.inl rfl)
  refine ⟨fun m hm => ?_, fun m hm hids hmeasured => ?_, fun _ e m hm => ?_, fun _ _ _ other hid => ?_⟩
  · obtain ⟨m', hm', hR⟩ := hlast.ok m hm
    exact ⟨m', runAll_cons_eq_ok.2 ⟨n', hrefuse, runAll_cons_eq_ok.2 ⟨k, hk, hm'⟩⟩, hR⟩
  · have hdistance : t id = n.distance? name := measuredAll_singleton.1 hmeasured
    have hlate := hlast.measured m hm hids hmeasured
    refine ⟨trivial, fun m' hm' => ?_⟩
    rw [hrefuse] at hm'
    cases hm'
    refine ⟨?_, fun m' hm' => ?_⟩
    · change t' (fresh id) = n'.distance? name
      rw [hids id List.mem_cons_self (fresh id) (.inr rfl), hdistance, same.distance?]
    · rw [hk] at hm'
      cases hm'
      exact hlate
  · rw [runAll_singleton, run_locate] at hm
    cases hm
  · exact List.mem_cons_of_mem _ hid

end Step.Retraces

section Scoping

open Step

variable {fresh : NodeId → NodeId} {t t' : NodeId → Option Nat}

mutual

/-- The analysis of an expression with assignments in place of updates. -/
theorem Expr.retraces_expandUpdates : ∀ (e : Expr) {n n' : Names}, n.Same n' →
    Retraces True (Added fresh) t t' Names.Same e.steps (e.expandUpdates fresh).steps n n'
  | .number _, _, _, same => .nil same
  | .text _, _, _, same => .nil same
  | .bool _, _, _, same => .nil same
  | .var name _, _, _, same =>
      Retraces.append (x := [.refuse name]) (y := [.refuse name]) (.refuse same name)
        fun _ _ _ same => .locate same name (.inl rfl)
  | .this _, _, _, same => .locate same "this" (.inl rfl)
  | .binary _ left right, _, _, same =>
      (left.retraces_expandUpdates same).append fun _ _ _ same => right.retraces_expandUpdates same
  | .logical _ left right, _, _, same =>
      (left.retraces_expandUpdates same).append fun _ _ _ same => right.retraces_expandUpdates same
  | .unary _ operand, _, _, same => operand.retraces_expandUpdates same
  | .member object _, _, _, same => object.retraces_expandUpdates same
  | .call callee args, _, _, same =>
      (callee.retraces_expandUpdates same).append fun _ _ _ same => Expr.retraces_expandAllUpdates args same
  | .lambda f, _, _, same => f.retraces_expandUpdates same

theorem Expr.retraces_expandAllUpdates : ∀ (es : List Expr) {n n' : Names}, n.Same n' →
    Retraces True (Added fresh) t t' Names.Same (Expr.stepsOfAll es)
      (Expr.stepsOfAll (Expr.expandAllUpdates fresh es)) n n'
  | [], _, _, same => .nil same
  | e :: rest, _, _, same =>
      (e.retraces_expandUpdates same).append fun _ _ _ same => Expr.retraces_expandAllUpdates rest same

/-- The analysis of a statement with assignments in place of updates. Before a statement all names can be
    read. -/
theorem Stmt.retraces_expandUpdates : ∀ (s : Stmt) {n n' : Names}, n.Ready → n.Same n' →
    Retraces True (Added fresh) t t' Names.Same s.steps (s.expandUpdates fresh).steps n n'
  | .expr e, _, _, _, same => e.retraces_expandUpdates same
  | .declare name value, _, _, _, same =>
      Retraces.append (x := [.declare name]) (y := [.declare name]) (.declare same name)
        fun _ _ _ same => (value.retraces_expandUpdates same).append fun _ _ _ same => .define same name
  | .assign target value, _, _, _, same =>
      (value.retraces_expandUpdates same).append fun _ _ _ same => .locate same target.name (.inl rfl)
  | .update target op, _, _, ready, same => by
      rw [Stmt.expandUpdates, target.step_eq fresh op]
      exact .added ready same target.name target.id
  | .setMember object _ value, _, _, _, same =>
      (object.retraces_expandUpdates same).append fun _ _ _ same => value.retraces_expandUpdates same
  | .block body, _, _, _, same =>
      .block same fun _ _ ready same => (Stmt.retraces_expandAllUpdates body ready same).forget
  | .ifElse test thenBranch none, _, _, ready, same =>
      (test.retraces_expandUpdates same).append fun _ _ hm same =>
        thenBranch.retraces_expandUpdates (ready_after_expr ready hm) same
  | .ifElse test thenBranch (some elseBranch), _, _, ready, same =>
      (test.retraces_expandUpdates same).append fun _ _ hm same =>
        have ready := ready_after_expr ready hm
        (thenBranch.retraces_expandUpdates ready same).append fun _ _ hm same =>
          elseBranch.retraces_expandUpdates (ready_of_runAll ready hm) same
  | .whileLoop test body, _, _, ready, same =>
      (test.retraces_expandUpdates same).append fun _ _ hm same =>
        body.retraces_expandUpdates (ready_after_expr ready hm) same
  | .function f, _, _, _, same => by
      have hname : (f.expandUpdates fresh).displayName = f.displayName := by
        cases f
        rfl
      rw [Stmt.steps, Stmt.expandUpdates, Stmt.steps, hname]
      exact Retraces.append (.introduce same f.displayName) fun _ _ _ same => f.retraces_expandUpdates same
  | .ret none, _, _, _, same => .exit same
  | .ret (some value), _, _, _, same =>
      Retraces.append (x := [.exit]) (y := [.exit]) (.exit same)
        fun _ _ _ same => value.retraces_expandUpdates same
  | .classDecl name methods, _, _, _, same =>
      Retraces.append (.introduce same name) fun _ _ _ same =>
        .methods same fun _ _ same => Function.retraces_expandAllUpdates methods same

theorem Stmt.retraces_expandAllUpdates : ∀ (ss : List Stmt) {n n' : Names}, n.Ready → n.Same n' →
    Retraces True (Added fresh) t t' Names.Same (Stmt.stepsOfAll ss)
      (Stmt.stepsOfAll (Stmt.expandAllUpdates fresh ss)) n n'
  | [], _, _, _, same => .nil same
  | s :: rest, _, _, ready, same =>
      (s.retraces_expandUpdates ready same).append fun _ _ hm same =>
        Stmt.retraces_expandAllUpdates rest (ready_of_runAll ready hm) same

theorem Function.retraces_expandUpdates {kind : FunctionKind} :
    ∀ (f : Function) {n n' : Names}, n.Same n' →
      Retraces True (Added fresh) t t' Names.Same (f.steps kind) ((f.expandUpdates fresh).steps kind) n n'
  | ⟨_, _, _, body⟩, _, _, same =>
      .function same rfl fun _ _ ready same => (Stmt.retraces_expandAllUpdates body ready same).forget

theorem Function.retraces_expandAllUpdates : ∀ (fs : List Function) {n n' : Names}, n.Same n' →
    Retraces True (Added fresh) t t' Names.Same (Function.stepsOfAll fs)
      (Function.stepsOfAll (Function.expandAllUpdates fresh fs)) n n'
  | [], _, _, same => .nil same
  | f :: rest, _, _, same =>
      (f.retraces_expandUpdates same).append fun _ _ _ same => Function.retraces_expandAllUpdates rest same

end

/-- The analysis of a program with assignments in place of updates. -/
theorem Program.retraces_expandUpdates (p : Program) :
    Retraces True (Added fresh) t t' Names.Same (Program.steps p)
      (Program.steps (p.expandUpdates fresh)) .initial .initial := by
  have hstatements : (p.expandUpdates fresh).statements = Stmt.expandAllUpdates fresh p.statements := by
    induction p with
    | nil => rfl
    | cons node rest ih => exact congrArg (node.value.expandUpdates fresh :: ·) ih
  rw [Program.steps_eq, Program.steps_eq, hstatements]
  exact Stmt.retraces_expandAllUpdates p.statements Names.ready_initial (.refl _)

/-- A rejection is for the same reason and on the same line. -/
theorem Scoping.program_expandUpdates_of_error (p : Program) {n n' k : Names} (ready : n.Ready)
    (same : n.Same n') {e : Located ResolveError} (h : Scoping.program p n = .error e k) :
    ∃ k', Scoping.program (p.expandUpdates fresh) n' = .error e k' := by
  induction p generalizing n n' with
  | nil => cases h
  | cons node rest ih =>
      -- a rejection does not depend on distances, so any tables will do
      have hnode : Retraces True (Added fresh) (fun _ => none) (fun _ => none) Names.Same node.value.steps
          (node.value.expandUpdates fresh).steps n n' := node.value.retraces_expandUpdates ready same
      simp only [Program.expandUpdates, List.map_cons, Scoping.program, Bind.bind, EStateM.bind,
        EStateM.adaptExcept, Scoping.stmt_eq_runAll] at h ⊢
      cases hrun : runAll node.value.steps n with
      | ok _ m =>
          obtain ⟨m', hm', same⟩ := hnode.ok m hrun
          rw [hrun] at h
          rw [hm']
          exact ih (ready_of_runAll ready hrun) same h
      | error e' m =>
          obtain ⟨m', hm'⟩ := hnode.error trivial e' m hrun
          rw [hrun] at h
          cases h
          exact ⟨m', by rw [hm']⟩

end Scoping

end Kiln
