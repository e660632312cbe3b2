/-
Module: Kiln.Proofs.Receivers.Runs
Purpose: Runs keep stores faithful to the bindings that are made in them. The tasks that a task comes to in its
  course are followed down from it; those that take a method as a member of an instance, or call a class with a
  method `init`, make the bindings. A task hands down to the tasks that it enters that no name in them is
  `this` and that they do not work in the scope of a binding.
Main exports: Task.Reaches, Task.BindsHere, Task.Binds, ProgramReaches, ProgramBinds, Task.Begins,
  Task.run_keeps, Task.Reaches.begins, ProgramBegins, program_keeps, ProgramReaches.begins
-/
import Kiln.Proofs.Evaluation.Soundness
import Kiln.Proofs.Receivers.Bindings
import Kiln.Proofs.Receivers.Occurrences

namespace Kiln.Evaluate

open Eval

namespace Task

/-- In the course of the first task, which is begun in the first world, the second task is begun in the second
    world. The numbers are the bounds of the two. -/
inductive Reaches (find : Finder) : Nat → Task → World → Nat → Task → World → Prop where
  | here {n : Nat} {t : Task} {w : World} : Reaches find n t w n t w
  | inside {n m : Nat} {t t' u : Task} {w w' v : World} (entered : Enters find n t w t' w')
      (h : Reaches find n t' w' m u v) : Reaches find (n + 1) t w m u v

/-- The binding that a task makes by itself. -/
inductive BindsHere (find : Finder) (n : Nat) : Task → World → Binding → Prop where
  /-- A method is taken from an instance that has no field of its name. -/
  | member {e : Expr} {name : String} {scope : ScopeId} {w w' w'' : World} {c : Class} {object : ObjectId}
      {m : Function} {closure : Closure} (receiver : Evaluate.expr find n e scope w = .ok (.object c object) w')
      (unhidden : (w'.store.fields object)[name]? = none) (known : c.methods[name]? = some m)
      (done : Eval.bind c m (.object c object) w' = .ok closure w'') :
      BindsHere find n (.expr (.member e name) scope) w ⟨c, object, m, closure.scope⟩
  /-- A class with a method `init` is called. -/
  | init {c : Class} {args : List Value} {w w' w'' : World} {object : ObjectId} {m : Function}
      {closure : Closure} (known : c.methods["init"]? = some m) (created : newObject w = .ok object w')
      (done : Eval.bind c m (.object c object) w' = .ok closure w'') :
      BindsHere find n (.call (.classValue c) args) w ⟨c, object, m, closure.scope⟩

/-- The bindings that are made in the course of a task. -/
def Binds (find : Finder) (n : Nat) (t : Task) (w : World) (b : Binding) : Prop :=
  ∃ m u v, Reaches find n t w (m + 1) u v ∧ BindsHere find m u v b

theorem Binds.enter {find : Finder} {n : Nat} {t t' : Task} {w w' : World} {b : Binding}
    (entered : Enters find n t w t' w') (h : Binds find n t' w' b) : Binds find (n + 1) t w b := by
  obtain ⟨m, u, v, hreaches, hbinds⟩ := h
  exact ⟨m, u, v, .inside entered hreaches, hbinds⟩

end Task

/-- In the course of a program a task is begun. -/
inductive ProgramReaches (find : Finder) (fuel : Nat) (scope : ScopeId) :
    Program → World → Nat → Task → World → Prop where
  | here {node : Located Stmt} {rest : Program} {w v : World} {m : Nat} {u : Task}
      (h : Task.Reaches find fuel (.stmt node.value scope) w m u v) :
      ProgramReaches find fuel scope (node :: rest) w m u v
  | later {node : Located Stmt} {rest : Program} {w w' v : World} {c : Completion} {m : Nat} {u : Task}
      (done : stmt find fuel node.value scope w = .ok c w')
      (h : ProgramReaches find fuel scope rest w' m u v) :
      ProgramReaches find fuel scope (node :: rest) w m u v

/-- The bindings that are made in the course of a program. -/
def ProgramBinds (find : Finder) (fuel : Nat) (scope : ScopeId) (p : Program) (w : World) (b : Binding) :
    Prop :=
  ∃ m u v, ProgramReaches find fuel scope p w (m + 1) u v ∧ Task.BindsHere find m u v b

/-- An evaluation of `this` visits the reference. -/
theorem Task.Reaches.visits {find : Finder} {n m : Nat} {t : Task} {w v : World} {id : NodeId}
    {scope : ScopeId} (h : Task.Reaches find n t w (m + 1) (.expr (.this id) scope) v) :
    Task.Visits find n t w ⟨v, scope, "this", id⟩ := by
  generalize hbound : m + 1 = k at h
  generalize htask : Task.expr (.this id) scope = u at h
  induction h with
  | here =>
      cases hbound
      cases htask
      exact .here .this
  | inside entered _ ih => exact .inside entered (ih hbound htask)

theorem ProgramReaches.visits {find : Finder} {fuel m : Nat} {globals scope : ScopeId} {p : Program}
    {w v : World} {id : NodeId}
    (h : ProgramReaches find fuel globals p w (m + 1) (.expr (.this id) scope) v) :
    ProgramVisits find fuel globals p w ⟨v, scope, "this", id⟩ := by
  generalize hbound : m + 1 = k at h
  generalize htask : Task.expr (.this id) scope = u at h
  induction h with
  | here h =>
      cases hbound
      cases htask
      exact .here h.visits
  | later done _ ih => exact .later done (ih hbound htask)

/-! ### Tasks -/

namespace Task

variable {bound : Binding → Prop} {find : Finder} {n : Nat}

/-- No name in a task is `this`, and the task does not work in the scope of a binding. -/
def Faithful (s : Store) : Task → Prop
  | .expr e scope | .operand _ e scope | .condition e scope => "this" ∉ e.names ∧ s.Plain scope
  | .exprs es scope => "this" ∉ Expr.namesOfAll es ∧ s.Plain scope
  | .call callee args => callee.Faithful s ∧ Value.AllFaithful s args
  | .callClosure c args => (Value.closure c).Faithful s ∧ Value.AllFaithful s args
  | .stmt st scope => "this" ∉ st.names ∧ s.Plain scope
  | .stmts ss scope => "this" ∉ Stmt.namesOfAll ss ∧ s.Plain scope
  | .loop test body scope => "this" ∉ (Stmt.whileLoop test body).names ∧ s.Plain scope

/-- What is known of the result of a task. -/
def Gives : (t : Task) → t.Result → Store → Prop
  | .expr _ _, v, s | .call _ _, v, s | .callClosure _ _, v, s => Value.Faithful s v
  | .exprs _ _, vs, s => Value.AllFaithful s vs
  | .operand _ _ _, _, _ | .condition _ _, _, _ => True
  | .stmt _ _, c, s | .stmts _ _, c, s | .loop _ _ _, c, s => Value.Faithful s (Completion.value c)

/-- What holds where a task begins. All bindings that it will make are among those that count. -/
structure Begins (bound : Binding → Prop) (find : Finder) (n : Nat) (t : Task) (w : World) : Prop where
  store : w.store.Faithful bound
  task : t.Faithful w.store
  bindings : ∀ b, t.Binds find n w b → bound b

/-- All tasks that begin so keep the store faithful within the bound. -/
def RunsKeep (bound : Binding → Prop) (find : Finder) (n : Nat) : Prop :=
  ∀ (t : Task) (w : World), Begins bound find n t w → Keeps bound w.store t.Gives (t.run find n w)

theorem Begins.enter {t t' : Task} {w w' : World} (h : Begins bound find (n + 1) t w)
    (entered : Enters find n t w t' w') (store : w'.store.Faithful bound)
    (task : t'.Faithful w'.store) : Begins bound find n t' w' :=
  ⟨store, task, fun b hb => h.bindings b (hb.enter entered)⟩

/-! ### The tasks that a task enters -/

theorem expr_enters (keep : RunsKeep bound find n) {e : Expr} {scope : ScopeId} {t : Task} {w w' : World}
    (entered : Enters find n (.expr e scope) w t w') (h : Begins bound find (n + 1) (.expr e scope) w) :
    Begins bound find n t w' := by
  have hnames := h.task.1
  have plain := h.task.2
  have henter := h.enter entered
  cases entered with
  | left =>
      rw [Expr.names, List.mem_append, not_or] at hnames
      exact henter h.store ⟨hnames.1, plain⟩
  | right done =>
      rw [Expr.names, List.mem_append, not_or] at hnames
      have hleft := keep _ _ (h.enter .left h.store ⟨hnames.1, plain⟩)
      obtain ⟨faithful, grows, _⟩ := hleft.of_eq_ok done
      exact henter faithful ⟨hnames.2, plain.mono grows⟩
  | firstOperand =>
      rw [Expr.names, List.mem_append, not_or] at hnames
      exact henter h.store ⟨hnames.1, plain⟩
  | secondOperand done _ =>
      rw [Expr.names, List.mem_append, not_or] at hnames
      have hfirst := keep _ _ (h.enter .firstOperand h.store ⟨hnames.1, plain⟩)
      obtain ⟨faithful, grows, _⟩ := hfirst.of_eq_ok done
      exact henter faithful ⟨hnames.2, plain.mono grows⟩
  | operand => exact henter h.store ⟨hnames, plain⟩
  | object =>
      rw [Expr.names, List.mem_append, not_or] at hnames
      exact henter h.store ⟨hnames.1, plain⟩
  | callee =>
      rw [Expr.names, List.mem_append, not_or] at hnames
      exact henter h.store ⟨hnames.1, plain⟩
  | args done =>
      rw [Expr.names, List.mem_append, not_or] at hnames
      have hcallee := keep _ _ (h.enter .callee h.store ⟨hnames.1, plain⟩)
      obtain ⟨faithful, grows, _⟩ := hcallee.of_eq_ok done
      exact henter faithful ⟨hnames.2, plain.mono grows⟩
  | call done done' =>
      rw [Expr.names, List.mem_append, not_or] at hnames
      have hcallee := keep _ _ (h.enter .callee h.store ⟨hnames.1, plain⟩)
      obtain ⟨faithful₁, grows₁, hvalue⟩ := hcallee.of_eq_ok done
      have hargs := keep _ _ (h.enter (.args done) faithful₁ ⟨hnames.2, plain.mono grows₁⟩)
      obtain ⟨faithful₂, grows₂, hvalues⟩ := hargs.of_eq_ok done'
      exact henter faithful₂ ⟨Value.Faithful.mono grows₂ hvalue, hvalues⟩

theorem call_enters {callee : Value} {args : List Value} {t : Task} {w w' : World}
    (entered : Enters find n (.call callee args) w t w')
    (h : Begins bound find (n + 1) (.call callee args) w) : Begins bound find n t w' := by
  obtain ⟨hcallee, hargs⟩ := h.task
  have henter := h.enter entered
  cases entered with
  | closure => exact henter h.store ⟨hcallee, hargs⟩
  | init known created done =>
      obtain ⟨faithful₁, grows₁, _⟩ := (Keeps.newObject h.store).of_eq_ok created
      have hbind := Keeps.bindMethod faithful₁
        (fun _ _ done => h.bindings _ ⟨n, _, _, .here, .init known created done⟩) hcallee (hcallee _ _ known)
      obtain ⟨faithful₂, grows₂, hclosure⟩ := hbind.of_eq_ok done
      exact henter faithful₂ ⟨hclosure, hargs.mono (grows₁.trans grows₂)⟩

/-- The parameters of a function get their values in the scope of a call. -/
theorem arguments_keep {c : Closure} {args : List Value} {scope : ScopeId} {w w' : World}
    (faithful : w.store.Faithful bound) (hc : (Value.closure c).Faithful w.store)
    (hargs : Value.AllFaithful w.store args)
    (opened : newScope (.call c.function) c.scope w = .ok scope w') :
    w'.store.Plain scope ∧
      Keeps bound w'.store (fun _ _ => True) (defineAll scope (c.function.paramNames.zip args) w') := by
  obtain ⟨faithful', grows, plain⟩ := (Keeps.newCall faithful hc.2).of_eq_ok opened
  refine ⟨plain, ?_⟩
  apply Keeps.defineAll scope _ faithful'
  · intro cell hcell hname
    have hregion : "this" ∉ (Region.function .function c.function).names :=
      Function.this_notMem_region hc.1
    rw [Region.names, List.mem_append, not_or] at hregion
    exact hregion.1 (hname ▸ (List.of_mem_zip hcell).1)
  · intro cell hcell
    exact (hargs cell.2 (List.of_mem_zip hcell).2).mono grows

theorem callClosure_enters {c : Closure} {args : List Value} {t : Task} {w w' : World}
    (entered : Enters find n (.callClosure c args) w t w')
    (h : Begins bound find (n + 1) (.callClosure c args) w) : Begins bound find n t w' := by
  obtain ⟨hc, hargs⟩ := h.task
  have henter := h.enter entered
  cases entered with
  | body arity opened done =>
      obtain ⟨plain, hdefine⟩ := arguments_keep h.store hc hargs opened
      obtain ⟨faithful, grows, _⟩ := hdefine.of_eq_ok done
      exact henter faithful ⟨Function.this_notMem_body hc.1, plain.mono grows⟩

theorem stmt_enters (keep : RunsKeep bound find n) {st : Stmt} {scope : ScopeId} {t : Task} {w w' : World}
    (entered : Enters find n (.stmt st scope) w t w') (h : Begins bound find (n + 1) (.stmt st scope) w) :
    Begins bound find n t w' := by
  have hnames := h.task.1
  have plain := h.task.2
  have henter := h.enter entered
  cases entered with
  | value => exact henter h.store ⟨hnames, plain⟩
  | initial | assigned =>
      rw [Stmt.names, List.mem_cons, not_or] at hnames
      exact henter h.store ⟨hnames.2, plain⟩
  | owner =>
      simp only [Stmt.names, List.mem_append, List.mem_cons, not_or] at hnames
      exact henter h.store ⟨hnames.1, plain⟩
  | field done =>
      simp only [Stmt.names, List.mem_append, List.mem_cons, not_or] at hnames
      have howner := keep _ _ (h.enter .owner h.store ⟨hnames.1, plain⟩)
      obtain ⟨faithful, grows, _⟩ := howner.of_eq_ok done
      exact henter faithful ⟨hnames.2.2, plain.mono grows⟩
  | block opened =>
      obtain ⟨faithful, _, plain'⟩ := (Keeps.newBlock h.store _ scope).of_eq_ok opened
      exact henter faithful ⟨hnames, plain'⟩
  | branchTest => exact henter h.store ⟨(Stmt.this_notMem_ifElse hnames).1, plain⟩
  | thenBranch done =>
      obtain ⟨htest, hbranch, _⟩ := Stmt.this_notMem_ifElse hnames
      have hcondition := keep _ _ (h.enter .branchTest h.store ⟨htest, plain⟩)
      obtain ⟨faithful, grows, _⟩ := hcondition.of_eq_ok done
      exact henter faithful ⟨hbranch, plain.mono grows⟩
  | elseBranch done =>
      obtain ⟨htest, _, hbranch⟩ := Stmt.this_notMem_ifElse hnames
      have hcondition := keep _ _ (h.enter .branchTest h.store ⟨htest, plain⟩)
      obtain ⟨faithful, grows, _⟩ := hcondition.of_eq_ok done
      exact henter faithful ⟨hbranch _ rfl, plain.mono grows⟩
  | loop => exact henter h.store ⟨hnames, plain⟩
  | returned => exact henter h.store ⟨hnames, plain⟩

theorem loop_enters (keep : RunsKeep bound find n) {test : Expr} {body : Stmt} {scope : ScopeId} {t : Task}
    {w w' : World} (entered : Enters find n (.loop test body scope) w t w')
    (h : Begins bound find (n + 1) (.loop test body scope) w) : Begins bound find n t w' := by
  obtain ⟨hnames, plain⟩ := h.task
  have henter := h.enter entered
  rw [Stmt.names, List.mem_append, not_or] at hnames
  have hcondition := keep _ _ (h.enter .loopTest h.store ⟨hnames.1, plain⟩)
  cases entered with
  | loopTest => exact henter h.store ⟨hnames.1, plain⟩
  | loopBody done =>
      obtain ⟨faithful, grows, _⟩ := hcondition.of_eq_ok done
      exact henter faithful ⟨hnames.2, plain.mono grows⟩
  | again done done' =>
      obtain ⟨faithful₁, grows₁, _⟩ := hcondition.of_eq_ok done
      have hbody := keep _ _ (h.enter (.loopBody done) faithful₁ ⟨hnames.2, plain.mono grows₁⟩)
      obtain ⟨faithful₂, grows₂, _⟩ := hbody.of_eq_ok done'
      exact henter faithful₂ ⟨h.task.1, plain.mono (grows₁.trans grows₂)⟩

/-- A task hands down what the tasks that it enters need. -/
theorem Begins.of_enters (keep : RunsKeep bound find n) {t t' : Task} {w w' : World}
    (h : Begins bound find (n + 1) t w) (entered : Enters find n t w t' w') : Begins bound find n t' w' := by
  have henter := h.enter entered
  cases t with
  | expr e scope => exact expr_enters keep entered h
  | call callee args => exact call_enters entered h
  | callClosure c args => exact callClosure_enters entered h
  | stmt st scope => exact stmt_enters keep entered h
  | loop test body scope => exact loop_enters keep entered h
  | exprs es scope =>
      obtain ⟨hnames, plain⟩ := h.task
      cases entered with
      | first =>
          rw [Expr.namesOfAll, List.mem_append, not_or] at hnames
          exact henter h.store ⟨hnames.1, plain⟩
      | rest done =>
          rw [Expr.namesOfAll, List.mem_append, not_or] at hnames
          have hfirst := keep _ _ (h.enter .first h.store ⟨hnames.1, plain⟩)
          obtain ⟨faithful, grows, _⟩ := hfirst.of_eq_ok done
          exact henter faithful ⟨hnames.2, plain.mono grows⟩
  | operand op e scope =>
      cases entered with
      | truth => exact henter h.store h.task
  | condition e scope =>
      cases entered with
      | test => exact henter h.store h.task
  | stmts ss scope =>
      obtain ⟨hnames, plain⟩ := h.task
      cases entered with
      | head =>
          rw [Stmt.namesOfAll, List.mem_append, not_or] at hnames
          exact henter h.store ⟨hnames.1, plain⟩
      | tail done =>
          rw [Stmt.namesOfAll, List.mem_append, not_or] at hnames
          have hhead := keep _ _ (h.enter .head h.store ⟨hnames.1, plain⟩)
          obtain ⟨faithful, grows, _⟩ := hhead.of_eq_ok done
          exact henter faithful ⟨hnames.2, plain.mono grows⟩

theorem RunsKeep.enter (keep : RunsKeep bound find n) {t t' : Task} {w w' : World}
    (entered : Enters find n t w t' w') (h : Begins bound find (n + 1) t w) :
    Keeps bound w'.store t'.Gives (t'.run find n w') :=
  keep t' w' (h.of_enters keep entered)

/-! ### Each task in turn -/

theorem expr_keeps (ih : RunsKeep bound find n) (e : Expr) (scope : ScopeId) (w : World)
    (h : Begins bound find (n + 1) (.expr e scope) w) :
    Keeps bound w.store (fun v s => v.Faithful s) (Evaluate.expr find (n + 1) e scope w) := by
  cases e with
  | number value => exact .ok h.store trivial
  | text value => exact .ok h.store trivial
  | bool value => exact .ok h.store trivial
  | var name id => exact .read h.store scope name id
  | this id => exact .read h.store scope "this" id
  | binary op l r =>
      apply Keeps.bind (ih.enter .left h)
      intro a w' ha _ _ _
      apply Keeps.bind (ih.enter (.right ha) h)
      intro b w'' _ faithful _ _
      exact .binary faithful op a b
  | logical op l r =>
      apply Keeps.bind (ih.enter .firstOperand h)
      intro a w' ha faithful _ _
      cases hd : isDecided op a with
      | true =>
          simp only [if_true]
          exact .ok faithful trivial
      | false =>
          simp only [Bool.false_eq_true, if_false]
          apply Keeps.bind (ih.enter (.secondOperand ha hd) h)
          intro b w'' _ faithful' _ _
          exact .ok faithful' trivial
  | unary op e =>
      apply Keeps.bind (ih.enter .operand h)
      intro a w' _ faithful _ _
      exact .unary faithful op a
  | member e name =>
      apply Keeps.bind (ih.enter .object h)
      intro value w' hvalue faithful _ hfaithful
      apply Keeps.property faithful hfaithful
      intro c object m hobject unhidden known closure w'' done
      cases hobject
      exact h.bindings _ ⟨n, _, _, .here, .member hvalue unhidden known done⟩
  | call e args =>
      apply Keeps.bind (ih.enter .callee h)
      intro f w' hf _ _ _
      apply Keeps.bind (ih.enter (.args hf) h)
      intro values w'' hvalues _ _ _
      exact ih.enter (.call hf hvalues) h
  | lambda f =>
      apply Keeps.bind (.newClosure h.store h.task.1 (h.task.2.admits f))
      intro c w' _ faithful _ hc
      exact .ok faithful hc

theorem exprs_keep (ih : RunsKeep bound find n) (es : List Expr) (scope : ScopeId) (w : World)
    (h : Begins bound find (n + 1) (.exprs es scope) w) :
    Keeps bound w.store (fun vs s => Value.AllFaithful s vs) (Evaluate.exprs find (n + 1) es scope w) := by
  cases es with
  | nil =>
      apply Keeps.ok h.store
      intro v hv
      cases hv
  | cons e rest =>
      apply Keeps.bind (ih.enter .first h)
      intro a w' ha _ _ hvalue
      apply Keeps.bind (ih.enter (.rest ha) h)
      intro vs w'' _ faithful grows hvalues
      apply Keeps.ok faithful
      intro v hv
      rcases List.mem_cons.1 hv with rfl | hv
      · exact Value.Faithful.mono grows hvalue
      · exact hvalues v hv

theorem call_keeps (ih : RunsKeep bound find n) (callee : Value) (args : List Value) (w : World)
    (h : Begins bound find (n + 1) (.call callee args) w) :
    Keeps bound w.store (fun v s => v.Faithful s) (Evaluate.call find (n + 1) callee args w) := by
  cases callee with
  | closure c => exact ih.enter .closure h
  | classValue c =>
      obtain ⟨hclass, _⟩ := h.task
      apply Keeps.bind (.newObject h.store)
      intro object w' created faithful _ _
      cases hm : c.methods["init"]? with
      | none =>
          simp only
          split
          · exact .ok faithful hclass
          · exact .fail faithful _
      | some method =>
          apply Keeps.bind (.bindMethod faithful
            (fun _ _ done => h.bindings _ ⟨n, _, _, .here, .init hm created done⟩) hclass (hclass _ _ hm))
          intro bound w'' hb _ _ _
          apply Keeps.bind (ih.enter (.init hm created hb) h)
          intro _ w₃ _ faithful' _ _
          exact .ok faithful' hclass
  | builtin f identity => exact .callBuiltin h.store f args
  | _ => exact .fail h.store _

theorem callClosure_keeps (ih : RunsKeep bound find n) (c : Closure) (args : List Value) (w : World)
    (h : Begins bound find (n + 1) (.callClosure c args) w) :
    Keeps bound w.store (fun v s => v.Faithful s) (Evaluate.callClosure find (n + 1) c args w) := by
  obtain ⟨hc, hargs⟩ := h.task
  simp only [Evaluate.callClosure]
  split
  · exact .fail h.store _
  · next harity =>
    apply Keeps.bind (.newCall h.store hc.2)
    intro scope w' opened _ _ _
    apply Keeps.bind (arguments_keep h.store hc hargs opened).2
    intro _ w'' done _ _ _
    apply Keeps.bind (ih.enter (.body (Decidable.not_not.1 harity) opened done) h)
    intro c w₃ _ faithful _ hvalue
    cases c with
    | returned value => exact .ok faithful hvalue
    | normal value => exact .ok faithful trivial

/-- The class that a declaration makes has the methods that are written there. -/
theorem classDecl_keeps (name : String) (methods : List Function) (scope : ScopeId) (w : World)
    (h : Begins bound find (n + 1) (.stmt (.classDecl name methods) scope) w) :
    Keeps bound w.store (fun c s => c.value.Faithful s)
      (Evaluate.stmt find (n + 1) (.classDecl name methods) scope w) := by
  have hnames := h.task.1
  rw [Stmt.names, List.mem_cons, not_or] at hnames
  have hname : name ≠ "this" := fun hsame => hnames.1 hsame.symm
  have hvoid : Value.void.Faithful w.store := trivial
  apply Keeps.bind (.define h.store scope hname hvoid)
  intro _ w₁ _ faithful₁ _ _
  apply Keeps.bind (.newIdentity faithful₁)
  intro identity w₂ _ faithful₂ _ _
  have hclass : (Value.classValue (.ofFunctions identity name methods scope)).Faithful w₂.store := by
    intro _ m hm hmem
    exact hnames.2 (Function.mem_namesOfAll (Class.mem_of_methods_ofFunctions hm) hmem)
  apply Keeps.bind (.define faithful₂ scope hname hclass)
  intro _ w₃ _ faithful₃ _ _
  exact .ok faithful₃ trivial

theorem stmt_keeps (ih : RunsKeep bound find n) (st : Stmt) (scope : ScopeId) (w : World)
    (h : Begins bound find (n + 1) (.stmt st scope) w) :
    Keeps bound w.store (fun c s => c.value.Faithful s) (Evaluate.stmt find (n + 1) st scope w) := by
  obtain ⟨hnames, plain⟩ := h.task
  cases st with
  | expr e =>
      apply Keeps.bind (ih.enter .value h)
      intro v w' _ faithful _ hv
      exact .ok faithful hv
  | declare name e =>
      rw [Stmt.names, List.mem_cons, not_or] at hnames
      apply Keeps.bind (ih.enter .initial h)
      intro v w' _ faithful _ hv
      apply Keeps.bind (.define faithful scope (fun hsame => hnames.1 hsame.symm) hv)
      intro _ w'' _ faithful' grows _
      exact .ok faithful' (Value.Faithful.mono grows hv)
  | assign target e =>
      rw [Stmt.names, List.mem_cons, not_or] at hnames
      apply Keeps.bind (ih.enter .assigned h)
      intro v w' _ faithful _ hv
      apply Keeps.bind (.write faithful scope (fun hsame => hnames.1 hsame.symm) hv)
      intro _ w'' _ faithful' grows _
      exact .ok faithful' (Value.Faithful.mono grows hv)
  | update target op =>
      rw [Stmt.names, List.mem_singleton] at hnames
      apply Keeps.bind (.read h.store scope target.name target.id)
      intro old w' _ faithful _ _
      apply Keeps.bind (.binary faithful op.binary old (.number 1))
      intro new w'' _ faithful' _ hnew
      apply Keeps.bind (.write faithful' scope (fun hsame => hnames hsame.symm) hnew)
      intro _ w₃ _ faithful₃ _ _
      exact .ok faithful₃ trivial
  | setMember object name e =>
      apply Keeps.bind (ih.enter .owner h)
      intro value w' hvalue faithful _ _
      cases value with
      | object c id =>
          apply Keeps.bind (ih.enter (.field hvalue) h)
          intro v w'' _ faithful' _ hv
          apply Keeps.bind (.setField faithful' id name hv)
          intro _ w₃ _ faithful₃ _ _
          exact .ok faithful₃ trivial
      | _ => exact .fail faithful _
  | block body =>
      apply Keeps.bind (.newBlock h.store body scope)
      intro inner w' opened _ _ _
      exact ih.enter (.block opened) h
  | ifElse test thenBranch elseBranch =>
      apply Keeps.bind (ih.enter .branchTest h)
      intro b w' hb faithful _ _
      cases b with
      | true => exact ih.enter (.thenBranch hb) h
      | false =>
          cases elseBranch with
          | none => exact .ok faithful trivial
          | some branch => exact ih.enter (.elseBranch hb) h
  | whileLoop test body => exact ih.enter .loop h
  | function f =>
      have hname : f.displayName ≠ "this" := by
        intro hsame
        exact Stmt.this_notMem_declared hnames (hsame ▸ List.mem_singleton_self _)
      apply Keeps.bind (.newClosure h.store hnames (plain.admits f))
      intro c w' _ faithful _ hc
      apply Keeps.bind (.define faithful scope hname hc)
      intro _ w'' _ faithful' _ _
      exact .ok faithful' trivial
  | ret value =>
      cases value with
      | none => exact .ok h.store trivial
      | some e =>
          apply Keeps.bind (ih.enter .returned h)
          intro v w' _ faithful _ hv
          exact .ok faithful hv
  | classDecl name methods => exact classDecl_keeps name methods scope w h

/-- Every task keeps the store faithful to the bindings. -/
theorem run_keeps (bound : Binding → Prop) (find : Finder) (n : Nat) : RunsKeep bound find n := by
  induction n with
  | zero =>
      intro t w h
      cases t with
      | call callee args => cases callee <;> exact .error h.store _
      | _ => exact .error h.store _
  | succ n ih =>
      intro t w h
      cases t with
      | expr e scope => exact expr_keeps ih e scope w h
      | exprs es scope => exact exprs_keep ih es scope w h
      | operand op e scope =>
          apply Keeps.bind (ih.enter .truth h)
          intro v w' _ faithful _ _
          cases v with
          | bool b => exact .ok faithful trivial
          | _ => exact .fail faithful _
      | condition e scope =>
          apply Keeps.bind (ih.enter .test h)
          intro v w' _ faithful _ _
          cases v with
          | bool b => exact .ok faithful trivial
          | _ => exact .fail faithful _
      | call callee args => exact call_keeps ih callee args w h
      | callClosure c args => exact callClosure_keeps ih c args w h
      | stmt st scope => exact stmt_keeps ih st scope w h
      | stmts ss scope =>
          cases ss with
          | nil => exact .ok h.store trivial
          | cons st rest =>
              apply Keeps.bind (ih.enter .head h)
              intro c w' hc faithful _ hvalue
              cases c with
              | returned value => exact .ok faithful hvalue
              | normal value => exact ih.enter (.tail hc) h
      | loop test body scope =>
          apply Keeps.bind (ih.enter .loopTest h)
          intro b w' hb faithful _ _
          cases b with
          | false => exact .ok faithful trivial
          | true =>
              apply Keeps.bind (ih.enter (.loopBody hb) h)
              intro c w'' hc faithful' _ hvalue
              cases c with
              | returned value => exact .ok faithful' hvalue
              | normal value => exact ih.enter (.again hb hc) h

/-- What holds where a task begins holds of all tasks that it comes to. -/
theorem Reaches.begins {m : Nat} {t u : Task} {w v : World} (h : Reaches find n t w m u v)
    (begins : Begins bound find n t w) : Begins bound find m u v := by
  induction h with
  | here => exact begins
  | inside entered _ ih => exact ih (begins.of_enters (run_keeps bound find _) entered)

end Task

/-! ### Whole programs -/

variable {bound : Binding → Prop} {find : Finder} {fuel : Nat} {globals : ScopeId}

/-- What holds where a program begins. All bindings that it will make are among those that count. -/
structure ProgramBegins (bound : Binding → Prop) (find : Finder) (fuel : Nat) (globals : ScopeId)
    (p : Program) (w : World) : Prop where
  store : w.store.Faithful bound
  names : "this" ∉ Program.names p
  plain : w.store.Plain globals
  bindings : ∀ b, ProgramBinds find fuel globals p w b → bound b

namespace ProgramBegins

variable {node : Located Stmt} {rest : Program} {w w' : World}

theorem head (h : ProgramBegins bound find fuel globals (node :: rest) w) :
    Task.Begins bound find fuel (.stmt node.value globals) w where
  store := h.store
  task := by
    have hnames := h.names
    rw [Program.names_cons, List.mem_append, not_or] at hnames
    exact ⟨hnames.1, h.plain⟩
  bindings b hb := by
    obtain ⟨m, u, v, hreaches, hbinds⟩ := hb
    exact h.bindings b ⟨m, u, v, .here hreaches, hbinds⟩

theorem tail (h : ProgramBegins bound find fuel globals (node :: rest) w) {c : Completion}
    (done : stmt find fuel node.value globals w = .ok c w') :
    ProgramBegins bound find fuel globals rest w' := by
  obtain ⟨faithful, grows, _⟩ := (Task.run_keeps bound find fuel _ w h.head).of_eq_ok done
  constructor
  · exact faithful
  · have hnames := h.names
    rw [Program.names_cons, List.mem_append, not_or] at hnames
    exact hnames.2
  · exact h.plain.mono grows
  · intro b hb
    obtain ⟨m, u, v, hreaches, hbinds⟩ := hb
    exact h.bindings b ⟨m, u, v, .later done hreaches, hbinds⟩

end ProgramBegins

/-- The world in which something ends, whether it succeeds or fails. -/
def outcomeWorld {ε α : Type} : EStateM.Result ε World α → World
  | .ok _ w | .error _ w => w

/-- A program leaves a faithful store behind, also where it fails. -/
theorem program_keeps {p : Program} {w : World} (h : ProgramBegins bound find fuel globals p w) :
    (outcomeWorld (program find fuel globals p w)).store.Faithful bound ∧
      w.store.Grows (outcomeWorld (program find fuel globals p w)).store := by
  induction p generalizing w with
  | nil => exact ⟨h.store, .refl _⟩
  | cons node rest ih =>
      have hnode := Task.run_keeps bound find fuel (.stmt node.value globals) w h.head
      simp only [Task.run] at hnode
      rw [program_cons]
      cases hs : stmt find fuel node.value globals w with
      | error e w' =>
          rw [hs] at hnode
          exact hnode
      | ok c w' =>
          obtain ⟨_, grows, _⟩ := hnode.of_eq_ok hs
          have hrest := ih (h.tail hs)
          simp only
          cases hp : program find fuel globals rest w' with
          | error e w'' =>
              rw [hp] at hrest
              exact ⟨hrest.1, grows.trans hrest.2⟩
          | ok values w'' =>
              rw [hp] at hrest
              exact ⟨hrest.1, grows.trans hrest.2⟩

/-- What a program comes to begins in a faithful store. -/
theorem ProgramReaches.begins {p : Program} {w v : World} {m : Nat} {u : Task}
    (h : ProgramReaches find fuel globals p w m u v) (begins : ProgramBegins bound find fuel globals p w) :
    Task.Begins bound find m u v := by
  induction h with
  | here h => exact h.begins begins.head
  | later done _ ih => exact ih (begins.tail done)

end Kiln.Evaluate
