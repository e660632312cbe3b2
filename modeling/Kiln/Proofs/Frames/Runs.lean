/-
Module: Kiln.Proofs.Frames.Runs
Purpose: Runs keep stores discreet and leave private scopes alone. A task hands down to the tasks that it enters
  that code is executed in a private scope only if it makes no functions and no classes, and that whatever is
  called was made in an exposed scope. A task then writes to no private scope that was there before but to
  those in which its own statements are executed.
Main exports: Task.Conforms, Task.Starts, Task.Starts.hands_down, Task.run_guards, Task.Reaches.starts,
  program_discreet, ProgramReaches.starts
-/
import Kiln.Proofs.Frames.Captures
import Kiln.Proofs.Receivers.Runs
import Kiln.Proofs.Session.History

namespace Kiln.Evaluate

open Eval

namespace Task

variable {globals : ScopeId} {a : Annotations} {first n : Nat}

/-! ### Tasks -/

/-- Code is executed in a scope that suits it, and what is called was made in exposed scopes. Statements write to
    their scope, which therefore must not be an older private one. -/
def Conforms (first : Nat) (s : Store) : Task → Prop
  | .expr e scope | .operand _ e scope | .condition e scope => s.Suits 0 scope e.flat
  | .exprs es scope => s.Suits 0 scope (Expr.flatAll es)
  | .call callee args => callee.Discreet s ∧ Value.AllDiscreet s args
  | .callClosure c args => s.Exposed c.scope ∧ Value.AllDiscreet s args
  | .stmt st scope => s.Suits first scope st.flat
  | .stmts ss scope => s.Suits first scope (Stmt.flatAll ss)
  | .loop test body scope => s.Suits first scope (test.flat && body.flat)

/-- What is known of the result of a task. -/
def Yields : (t : Task) → t.Result → Store → Prop
  | .expr _ _, v, s | .call _ _, v, s | .callClosure _ _, v, s => Value.Discreet s v
  | .exprs _ _, vs, s => Value.AllDiscreet s vs
  | .operand _ _ _, _, _ | .condition _ _, _, _ => True
  | .stmt _ _, c, s | .stmts _ _, c, s | .loop _ _ _, c, s => Value.Discreet s (Completion.value c)

/-- What holds where a task begins. -/
structure Starts (globals : ScopeId) (first : Nat) (t : Task) (w : World) : Prop where
  discreet : w.store.Discreet globals
  old : first ≤ w.store.scopes.size
  conforms : t.Conforms first w.store

/-- All tasks that begin so keep the private scopes that they do not work in. -/
def RunsGuard (globals : ScopeId) (a : Annotations) (first n : Nat) : Prop :=
  ∀ (t : Task) (w : World), Starts globals first t w →
    Guards globals first w.store t.Yields (t.run (.lexical globals a) n w)

variable {t t' : Task} {w w' : World}

theorem Starts.here (h : Starts globals first t w) (conforms : t'.Conforms first w.store) :
    Starts globals first t' w :=
  ⟨h.discreet, h.old, conforms⟩

theorem Starts.later (h : Starts globals first t w) (guarded : w.store.Guarded globals first w'.store)
    (conforms : t'.Conforms first w'.store) : Starts globals first t' w' :=
  ⟨guarded.discreet, Nat.le_trans h.old guarded.grows.size_le, conforms⟩

/-- What is known of a task that has been done. -/
theorem RunsGuard.done (ih : RunsGuard globals a first n) (t : Task) {result : t.Result}
    (done : t.run (.lexical globals a) n w = .ok result w') (h : Starts globals first t w) :
    w.store.Guarded globals first w'.store ∧ t.Yields result w'.store :=
  (ih t w h).of_eq_ok done

/-! ### The tasks that a task enters -/

theorem expr_hands_down (ih : RunsGuard globals a first n) {e : Expr} {scope : ScopeId}
    (entered : Enters (.lexical globals a) n (.expr e scope) w t w')
    (h : Starts globals first (.expr e scope) w) :
    w.store.Guarded globals first w'.store ∧ t.Conforms first w'.store := by
  have suits : w.store.Suits 0 scope e.flat := h.conforms
  cases entered with
  | left => exact ⟨.refl h.discreet, suits.left⟩
  | right done =>
      obtain ⟨guarded, _⟩ := ih.done (.expr _ _) done (h.here suits.left)
      exact ⟨guarded, suits.right.mono guarded.grows⟩
  | firstOperand => exact ⟨.refl h.discreet, suits.left⟩
  | secondOperand done _ =>
      obtain ⟨guarded, _⟩ := ih.done (.operand _ _ _) done (h.here suits.left)
      exact ⟨guarded, suits.right.mono guarded.grows⟩
  | operand => exact ⟨.refl h.discreet, suits⟩
  | object => exact ⟨.refl h.discreet, suits⟩
  | callee => exact ⟨.refl h.discreet, suits.left⟩
  | args done =>
      obtain ⟨guarded, _⟩ := ih.done (.expr _ _) done (h.here suits.left)
      exact ⟨guarded, suits.right.mono guarded.grows⟩
  | call done done' =>
      obtain ⟨guarded₁, hvalue⟩ := ih.done (.expr _ _) done (h.here suits.left)
      obtain ⟨guarded₂, hvalues⟩ := ih.done (.exprs _ _) done'
        (h.later guarded₁ (suits.right.mono guarded₁.grows))
      exact ⟨guarded₁.trans guarded₂, Value.Discreet.mono guarded₂.grows hvalue, hvalues⟩

theorem call_hands_down {callee : Value} {args : List Value}
    (entered : Enters (.lexical globals a) n (.call callee args) w t w')
    (h : Starts globals first (.call callee args) w) :
    w.store.Guarded globals first w'.store ∧ t.Conforms first w'.store := by
  obtain ⟨hcallee, hargs⟩ := h.conforms
  cases entered with
  | closure => exact ⟨.refl h.discreet, hcallee, hargs⟩
  | @init c _ method _ w₁ _ object bound known created done =>
      have hnew : Guards globals first w.store (fun _ _ => True) (newObject w) := .newObject h.discreet
      obtain ⟨guarded₁, _⟩ := hnew.of_eq_ok created
      have hreceiver : (Value.object c object).Discreet w₁.store := hcallee.mono guarded₁.grows
      have old := Nat.le_trans h.old guarded₁.grows.size_le
      have hbind := Guards.bindMethod guarded₁.discreet old hreceiver method hreceiver
      obtain ⟨guarded₂, hclosure⟩ := hbind.of_eq_ok done
      have guarded := guarded₁.trans guarded₂
      exact ⟨guarded, hclosure, hargs.mono guarded.grows⟩

/-- The scope of a call is private if its function is flat, and exposed otherwise. -/
theorem suits_of_call {s : Store} {scope : ScopeId} {f : Function} (opened : s.origin? scope = some (.call f))
    (late : first ≤ scope.index) : s.Suits first scope (Stmt.flatAll f.body) := by
  cases hflat : f.flat with
  | false => exact .inl (.call opened hflat)
  | true => exact .inr ⟨.call opened hflat late, hflat⟩

/-- The parameters of a function get their values in the scope of a call. -/
theorem arguments_guard {c : Closure} {args : List Value} {scope : ScopeId}
    (h : Starts globals first (.callClosure c args) w)
    (opened : newScope (.call c.function) c.scope w = .ok scope w') :
    w.store.Guarded globals first w'.store ∧ w'.store.Suits first scope (Stmt.flatAll c.function.body) ∧
      Guards globals first w'.store (fun _ _ => True)
        (defineAll scope (c.function.paramNames.zip args) w') := by
  obtain ⟨exposed, hargs⟩ := h.conforms
  obtain ⟨guarded, horigin, _, late⟩ := (Guards.newScope h.discreet h.old (.inl exposed)).of_eq_ok opened
  refine ⟨guarded, suits_of_call horigin late, ?_⟩
  apply Guards.defineAll guarded.discreet (.inr late)
  exact fun cell hcell => (hargs cell.2 (List.of_mem_zip hcell).2).mono guarded.grows

theorem callClosure_hands_down {c : Closure} {args : List Value}
    (entered : Enters (.lexical globals a) n (.callClosure c args) w t w')
    (h : Starts globals first (.callClosure c args) w) :
    w.store.Guarded globals first w'.store ∧ t.Conforms first w'.store := by
  cases entered with
  | body arity opened done =>
      obtain ⟨guarded₁, suits, hdefine⟩ := arguments_guard h opened
      obtain ⟨guarded₂, _⟩ := hdefine.of_eq_ok done
      exact ⟨guarded₁.trans guarded₂, suits.mono guarded₂.grows⟩

/-- A block inside a scope suits what the scope suits. -/
theorem suits_of_block {s : Store} {scope inner : ScopeId} {body : List Stmt} {flat : Bool}
    (suits : s.Suits first scope flat) (opened : s.origin? inner = some (.block body))
    (around : s.parent? inner = some scope) (late : first ≤ inner.index) : s.Suits first inner flat := by
  rcases suits with exposed | ⟨hprivate, hflat⟩
  · exact .inl (.block opened around exposed)
  · exact .inr ⟨.block opened around hprivate late, hflat⟩

theorem suits_of_ifElse {s : Store} {scope : ScopeId} {test : Expr} {thenBranch : Stmt}
    {elseBranch : Option Stmt} (suits : s.Suits first scope (Stmt.ifElse test thenBranch elseBranch).flat) :
    s.Suits first scope test.flat ∧ s.Suits first scope thenBranch.flat := by
  cases elseBranch with
  | none => exact ⟨suits.left, suits.right⟩
  | some branch => exact ⟨suits.left, suits.right.left⟩

theorem stmt_hands_down (ih : RunsGuard globals a first n) {st : Stmt} {scope : ScopeId}
    (entered : Enters (.lexical globals a) n (.stmt st scope) w t w')
    (h : Starts globals first (.stmt st scope) w) :
    w.store.Guarded globals first w'.store ∧ t.Conforms first w'.store := by
  have suits : w.store.Suits first scope st.flat := h.conforms
  cases entered with
  | value | initial | assigned | returned => exact ⟨.refl h.discreet, suits.any⟩
  | owner => exact ⟨.refl h.discreet, suits.any.left⟩
  | field done =>
      obtain ⟨guarded, _⟩ := ih.done (.expr _ _) done (h.here suits.any.left)
      exact ⟨guarded, suits.any.right.mono guarded.grows⟩
  | @block body _ inner _ _ opened =>
      have place : w.store.Exposed scope ∨ ∃ ss, Origin.block body = .block ss := .inr ⟨body, rfl⟩
      obtain ⟨guarded, horigin, around, late⟩ := (Guards.newScope h.discreet h.old place).of_eq_ok opened
      exact ⟨guarded, suits_of_block (suits.mono guarded.grows) horigin around late⟩
  | branchTest => exact ⟨.refl h.discreet, (suits_of_ifElse suits).1.any⟩
  | thenBranch done =>
      obtain ⟨htest, hbranch⟩ := suits_of_ifElse suits
      obtain ⟨guarded, _⟩ := ih.done (.condition _ _) done (h.here htest.any)
      exact ⟨guarded, hbranch.mono guarded.grows⟩
  | elseBranch done =>
      obtain ⟨guarded, _⟩ := ih.done (.condition _ _) done (h.here suits.any.left)
      exact ⟨guarded, suits.right.right.mono guarded.grows⟩
  | loop => exact ⟨.refl h.discreet, suits⟩

theorem loop_hands_down (ih : RunsGuard globals a first n) {test : Expr} {body : Stmt} {scope : ScopeId}
    (entered : Enters (.lexical globals a) n (.loop test body scope) w t w')
    (h : Starts globals first (.loop test body scope) w) :
    w.store.Guarded globals first w'.store ∧ t.Conforms first w'.store := by
  have suits : w.store.Suits first scope (test.flat && body.flat) := h.conforms
  have hstart : Starts globals first (.condition test scope) w := h.here suits.any.left
  cases entered with
  | loopTest => exact ⟨.refl h.discreet, hstart.conforms⟩
  | loopBody done =>
      obtain ⟨guarded, _⟩ := ih.done (.condition _ _) done hstart
      exact ⟨guarded, suits.right.mono guarded.grows⟩
  | again done done' =>
      obtain ⟨guarded₁, _⟩ := ih.done (.condition _ _) done hstart
      obtain ⟨guarded₂, _⟩ := ih.done (.stmt body scope) done'
        (h.later guarded₁ (suits.right.mono guarded₁.grows))
      have guarded := guarded₁.trans guarded₂
      exact ⟨guarded, suits.mono guarded.grows⟩

/-- A task hands down what the tasks that it enters need. -/
theorem Starts.hands_down (ih : RunsGuard globals a first n) (h : Starts globals first t w)
    (entered : Enters (.lexical globals a) n t w t' w') :
    w.store.Guarded globals first w'.store ∧ t'.Conforms first w'.store := by
  cases t with
  | expr e scope => exact expr_hands_down ih entered h
  | call callee args => exact call_hands_down entered h
  | callClosure c args => exact callClosure_hands_down entered h
  | stmt st scope => exact stmt_hands_down ih entered h
  | loop test body scope => exact loop_hands_down ih entered h
  | exprs es scope =>
      have suits : w.store.Suits 0 scope (Expr.flatAll es) := h.conforms
      cases entered with
      | first => exact ⟨.refl h.discreet, suits.left⟩
      | rest done =>
          obtain ⟨guarded, _⟩ := ih.done (.expr _ _) done (h.here suits.left)
          exact ⟨guarded, suits.right.mono guarded.grows⟩
  | operand op e scope =>
      cases entered with
      | truth => exact ⟨.refl h.discreet, h.conforms⟩
  | condition e scope =>
      cases entered with
      | test => exact ⟨.refl h.discreet, h.conforms⟩
  | stmts ss scope =>
      have suits : w.store.Suits first scope (Stmt.flatAll ss) := h.conforms
      cases entered with
      | head => exact ⟨.refl h.discreet, suits.left⟩
      | tail done =>
          obtain ⟨guarded, _⟩ := ih.done (.stmt _ _) done (h.here suits.left)
          exact ⟨guarded, suits.right.mono guarded.grows⟩

theorem Starts.of_enters (ih : RunsGuard globals a first n) (h : Starts globals first t w)
    (entered : Enters (.lexical globals a) n t w t' w') : Starts globals first t' w' := by
  obtain ⟨guarded, conforms⟩ := h.hands_down ih entered
  exact h.later guarded conforms

theorem RunsGuard.enter (ih : RunsGuard globals a first n) (h : Starts globals first t w)
    (entered : Enters (.lexical globals a) n t w t' w') :
    Guards globals first w'.store t'.Yields (t'.run (.lexical globals a) n w') :=
  ih t' w' (h.of_enters ih entered)

/-! ### Each task in turn -/

theorem expr_guards (ih : RunsGuard globals a first n) (e : Expr) (scope : ScopeId) (w : World)
    (h : Starts globals first (.expr e scope) w) :
    Guards globals first w.store (fun v s => v.Discreet s)
      (Evaluate.expr (.lexical globals a) (n + 1) e scope w) := by
  cases e with
  | number value => exact .ok h.discreet trivial
  | text value => exact .ok h.discreet trivial
  | bool value => exact .ok h.discreet trivial
  | var name id => exact .read h.discreet _ scope name id
  | this id => exact .read h.discreet _ scope "this" id
  | binary op l r =>
      apply Guards.bind (ih.enter h .left)
      intro x w₁ hx _ _
      apply Guards.bind (ih.enter h (.right hx))
      intro y w₂ _ guarded _
      exact .ofExcept guarded.discreet fun v hv => Operators.isPlain_of_binary hv
  | logical op l r =>
      apply Guards.bind (ih.enter h .firstOperand)
      intro x w₁ hx guarded _
      cases hd : isDecided op x with
      | true =>
          simp only [if_true]
          exact .ok guarded.discreet trivial
      | false =>
          simp only [Bool.false_eq_true, if_false]
          apply Guards.bind (ih.enter h (.secondOperand hx hd))
          intro y w₂ _ guarded' _
          exact .ok guarded'.discreet trivial
  | unary op e =>
      apply Guards.bind (ih.enter h .operand)
      intro x w₁ _ guarded _
      exact .ofExcept guarded.discreet fun v hv => Operators.isPlain_of_unary hv
  | member e name =>
      apply Guards.bind (ih.enter h .object)
      intro receiver w₁ _ guarded hreceiver
      exact .property guarded.discreet (Nat.le_trans h.old guarded.grows.size_le) hreceiver name
  | call e args =>
      apply Guards.bind (ih.enter h .callee)
      intro f w₁ hf _ _
      apply Guards.bind (ih.enter h (.args hf))
      intro values w₂ hvalues _ _
      exact ih.enter h (.call hf hvalues)
  | lambda f =>
      have exposed : w.store.Exposed scope := Store.Suits.exposed h.conforms
      apply Guards.bind (.newClosure h.discreet f exposed)
      intro c w₁ _ guarded hc
      exact .ok guarded.discreet hc

theorem exprs_guard (ih : RunsGuard globals a first n) (es : List Expr) (scope : ScopeId) (w : World)
    (h : Starts globals first (.exprs es scope) w) :
    Guards globals first w.store (fun vs s => Value.AllDiscreet s vs)
      (Evaluate.exprs (.lexical globals a) (n + 1) es scope w) := by
  cases es with
  | nil =>
      apply Guards.ok h.discreet
      intro v hv
      cases hv
  | cons e rest =>
      apply Guards.bind (ih.enter h .first)
      intro x w₁ hx _ hvalue
      apply Guards.bind (ih.enter h (.rest hx))
      intro vs w₂ _ guarded hvalues
      apply Guards.ok guarded.discreet
      intro v hv
      rcases List.mem_cons.1 hv with rfl | hv
      · exact Value.Discreet.mono guarded.grows hvalue
      · exact hvalues v hv

theorem call_guards (ih : RunsGuard globals a first n) (callee : Value) (args : List Value) (w : World)
    (h : Starts globals first (.call callee args) w) :
    Guards globals first w.store (fun v s => v.Discreet s)
      (Evaluate.call (.lexical globals a) (n + 1) callee args w) := by
  cases callee with
  | closure c => exact ih.enter h .closure
  | classValue c =>
      have hclass : w.store.Exposed c.scope := h.conforms.1
      apply Guards.bind (.newObject h.discreet)
      intro object w₁ created guarded _
      have hreceiver : (Value.object c object).Discreet w₁.store := hclass.mono guarded.grows
      have old := Nat.le_trans h.old guarded.grows.size_le
      cases hm : c.methods["init"]? with
      | none =>
          simp only
          split
          · exact .ok guarded.discreet hreceiver
          · exact .error guarded.discreet _
      | some method =>
          apply Guards.bind (.bindMethod guarded.discreet old hreceiver method hreceiver)
          intro bound w₂ hb guarded₂ _
          apply Guards.bind (ih.enter h (.init hm created hb))
          intro _ w₃ _ guarded₃ _
          exact .ok guarded₃.discreet (Store.Exposed.mono (guarded₂.grows.trans guarded₃.grows) hreceiver)
  | builtin f identity => exact .callBuiltin h.discreet f args
  | _ => exact .error h.discreet _

theorem callClosure_guards (ih : RunsGuard globals a first n) (c : Closure) (args : List Value) (w : World)
    (h : Starts globals first (.callClosure c args) w) :
    Guards globals first w.store (fun v s => v.Discreet s)
      (Evaluate.callClosure (.lexical globals a) (n + 1) c args w) := by
  simp only [Evaluate.callClosure]
  split
  · exact .error h.discreet _
  · next harity =>
    apply Guards.bind (.newScope h.discreet h.old (.inl h.conforms.1))
    intro scope w₁ opened _ _
    apply Guards.bind (arguments_guard h opened).2.2
    intro _ w₂ done _ _
    apply Guards.bind (ih.enter h (.body (Decidable.not_not.1 harity) opened done))
    intro completion w₃ _ guarded hvalue
    cases completion with
    | returned value => exact .ok guarded.discreet hvalue
    | normal value => exact .ok guarded.discreet trivial

/-- A class is declared in an exposed scope only. -/
theorem classDecl_guards (name : String) (methods : List Function) (scope : ScopeId) (w : World)
    (h : Starts globals first (.stmt (.classDecl name methods) scope) w) :
    Guards globals first w.store (fun c s => c.value.Discreet s)
      (Evaluate.stmt (.lexical globals a) (n + 1) (.classDecl name methods) scope w) := by
  have exposed : w.store.Exposed scope := Store.Suits.exposed h.conforms
  have hvoid : Value.void.Discreet w.store := trivial
  apply Guards.bind (.define h.discreet (.inl exposed) name hvoid)
  intro _ w₁ _ guarded₁ _
  have exposed₁ := exposed.mono guarded₁.grows
  apply Guards.bind (.newIdentity guarded₁.discreet)
  intro identity w₂ _ guarded₂ _
  have exposed₂ := exposed₁.mono guarded₂.grows
  have hclass : (Value.classValue (.ofFunctions identity name methods scope)).Discreet w₂.store := exposed₂
  apply Guards.bind (.define guarded₂.discreet (.inl exposed₂) name hclass)
  intro _ w₃ _ guarded₃ _
  exact .ok guarded₃.discreet trivial

theorem stmt_guards (ih : RunsGuard globals a first n) (st : Stmt) (scope : ScopeId) (w : World)
    (h : Starts globals first (.stmt st scope) w) :
    Guards globals first w.store (fun c s => c.value.Discreet s)
      (Evaluate.stmt (.lexical globals a) (n + 1) st scope w) := by
  have suits : w.store.Suits first scope st.flat := h.conforms
  cases st with
  | expr e =>
      apply Guards.bind (ih.enter h .value)
      intro v w₁ _ guarded hv
      exact .ok guarded.discreet hv
  | declare name e =>
      apply Guards.bind (ih.enter h .initial)
      intro v w₁ _ guarded hv
      apply Guards.bind (.define guarded.discreet (suits.clear.mono guarded.grows) name hv)
      intro _ w₂ _ guarded' _
      exact .ok guarded'.discreet (Value.Discreet.mono guarded'.grows hv)
  | assign target e =>
      apply Guards.bind (ih.enter h .assigned)
      intro v w₁ _ guarded hv
      apply Guards.bind (.write guarded.discreet (suits.mono guarded.grows) target hv)
      intro _ w₂ _ guarded' _
      exact .ok guarded'.discreet (Value.Discreet.mono guarded'.grows hv)
  | update target op =>
      apply Guards.bind (.read h.discreet _ scope target.name target.id)
      intro old w₁ _ guarded _
      apply Guards.bind (.ofExcept guarded.discreet fun v hv => Operators.isPlain_of_binary hv)
      intro new w₂ _ guarded' hnew
      have suits₂ := suits.mono (guarded.grows.trans guarded'.grows)
      apply Guards.bind (.write guarded'.discreet suits₂ target hnew)
      intro _ w₃ _ guarded₃ _
      exact .ok guarded₃.discreet trivial
  | setMember object name e =>
      apply Guards.bind (ih.enter h .owner)
      intro owner w₁ howner guarded _
      cases owner with
      | object c id =>
          apply Guards.bind (ih.enter h (.field howner))
          intro v w₂ _ guarded' hv
          apply Guards.bind (.setField guarded'.discreet id name hv)
          intro _ w₃ _ guarded₃ _
          exact .ok guarded₃.discreet trivial
      | _ => exact .error guarded.discreet _
  | block body =>
      apply Guards.bind (.newScope h.discreet h.old (.inr ⟨body, rfl⟩))
      intro inner w₁ opened _ _
      exact ih.enter h (.block opened)
  | ifElse test thenBranch elseBranch =>
      apply Guards.bind (ih.enter h .branchTest)
      intro truth w₁ htruth guarded _
      cases truth with
      | true => exact ih.enter h (.thenBranch htruth)
      | false =>
          cases elseBranch with
          | none => exact .ok guarded.discreet trivial
          | some branch => exact ih.enter h (.elseBranch htruth)
  | whileLoop test body => exact ih.enter h .loop
  | function f =>
      have exposed : w.store.Exposed scope := suits.exposed
      apply Guards.bind (.newClosure h.discreet f exposed)
      intro c w₁ _ guarded hc
      apply Guards.bind (.define guarded.discreet (suits.clear.mono guarded.grows) f.displayName hc)
      intro _ w₂ _ guarded' _
      exact .ok guarded'.discreet trivial
  | ret value =>
      cases value with
      | none => exact .ok h.discreet trivial
      | some e =>
          apply Guards.bind (ih.enter h .returned)
          intro v w₁ _ guarded hv
          exact .ok guarded.discreet hv
  | classDecl name methods => exact classDecl_guards name methods scope w h

/-- Every task keeps the private scopes that it does not work in. -/
theorem run_guards (globals : ScopeId) (a : Annotations) (first n : Nat) : RunsGuard globals a first n := by
  induction n with
  | zero =>
      intro t w h
      cases t with
      | call callee args => cases callee <;> exact .error h.discreet _
      | _ => exact .error h.discreet _
  | succ n ih =>
      intro t w h
      cases t with
      | expr e scope => exact expr_guards ih e scope w h
      | exprs es scope => exact exprs_guard ih es scope w h
      | operand op e scope =>
          apply Guards.bind (ih.enter h .truth)
          intro v w₁ _ guarded _
          cases v with
          | bool b => exact .ok guarded.discreet trivial
          | _ => exact .error guarded.discreet _
      | condition e scope =>
          apply Guards.bind (ih.enter h .test)
          intro v w₁ _ guarded _
          cases v with
          | bool b => exact .ok guarded.discreet trivial
          | _ => exact .error guarded.discreet _
      | call callee args => exact call_guards ih callee args w h
      | callClosure c args => exact callClosure_guards ih c args w h
      | stmt st scope => exact stmt_guards ih st scope w h
      | stmts ss scope =>
          cases ss with
          | nil => exact .ok h.discreet trivial
          | cons st rest =>
              apply Guards.bind (ih.enter h .head)
              intro completion w₁ done guarded hvalue
              cases completion with
              | returned value => exact .ok guarded.discreet hvalue
              | normal value => exact ih.enter h (.tail done)
      | loop test body scope =>
          apply Guards.bind (ih.enter h .loopTest)
          intro truth w₁ htruth guarded _
          cases truth with
          | false => exact .ok guarded.discreet trivial
          | true =>
              apply Guards.bind (ih.enter h (.loopBody htruth))
              intro completion w₂ done guarded' hvalue
              cases completion with
              | returned value => exact .ok guarded'.discreet hvalue
              | normal value => exact ih.enter h (.again htruth done)

/-- What holds where a task begins holds of all tasks that it comes to. -/
theorem Reaches.starts {m : Nat} {t u : Task} {w v : World}
    (h : Reaches (.lexical globals a) n t w m u v) (starts : Starts globals first t w) :
    Starts globals first u v := by
  induction h with
  | here => exact starts
  | inside entered _ ih => exact ih (starts.of_enters (run_guards globals a first _) entered)

end Task

/-! ### Whole programs -/

variable {globals : ScopeId} {a : Annotations} {fuel first : Nat} {p : Program} {w w' v : World}

theorem guarded_of_guards {α : Type} {s : Store} {Q : α → Store → Prop} {r : EStateM.Result Halt World α}
    (h : Guards globals first s Q r) : s.Guarded globals first (endWorld r).store := by
  cases r with
  | ok x w => exact h.1
  | error e w => exact h

/-- The statements of a program are executed in an exposed scope. -/
theorem starts_of_discreet (h : w.store.Discreet globals) (st : Stmt) :
    Task.Starts globals 0 (.stmt st globals) w :=
  ⟨h, Nat.zero_le _, .inl h.globals⟩

theorem discreet_of_stmt (h : w.store.Discreet globals) {st : Stmt} {r : EStateM.Result Halt World Completion}
    (done : stmt (.lexical globals a) fuel st globals w = r) : (endWorld r).store.Discreet globals := by
  have hguards := Task.run_guards globals a 0 fuel (.stmt st globals) w (starts_of_discreet h st)
  rw [Task.run, done] at hguards
  exact (guarded_of_guards hguards).discreet

/-- A program leaves a discreet store behind, also where it fails. -/
theorem program_discreet (h : w.store.Discreet globals) :
    (endWorld (program (.lexical globals a) fuel globals p w)).store.Discreet globals := by
  induction p generalizing w with
  | nil => exact h
  | cons node rest ih =>
      rw [program_cons]
      cases hrun : stmt (.lexical globals a) fuel node.value globals w with
      | error e w' => exact discreet_of_stmt h hrun
      | ok c w' =>
          have hnext : w'.store.Discreet globals := discreet_of_stmt h hrun
          have hrest := ih hnext
          simp only
          cases hp : program (.lexical globals a) fuel globals rest w' with
          | error e w'' =>
              rw [hp] at hrest
              exact hrest
          | ok values w'' =>
              rw [hp] at hrest
              exact hrest

/-- What a program comes to begins in a discreet store. -/
theorem ProgramReaches.starts {m : Nat} {u : Task}
    (h : ProgramReaches (.lexical globals a) fuel globals p w m u v) (discreet : w.store.Discreet globals) :
    Task.Starts globals 0 u v := by
  induction h with
  | here h => exact h.starts (starts_of_discreet discreet _)
  | later done _ ih => exact ih (discreet_of_stmt discreet done)

end Kiln.Evaluate
