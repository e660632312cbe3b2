/-
Module: Kiln.Proofs.Identity.Runs
Purpose: Runs only add to ledgers. Whatever a task computes from recorded values in a recorded store is recorded
  in a ledger to which entries have been added, also when the task fails. The tasks in its course are followed
  down from it together with the values that wait for them meanwhile: the left operand while the right one is
  evaluated, the arguments of the calls around, the instance on which `init` runs. All these are recorded too.
Main exports: Task.values, Task.given, Task.run_records, Task.EntersHolding, Task.Arrives, Task.Arrives.records,
  ProgramArrives, program_records, ProgramArrives.records
-/
import Kiln.Proofs.Evaluation.Visits
import Kiln.Proofs.Identity.Ledgers

namespace Kiln.Evaluate

open Eval

open Value (AllRecorded)

namespace Task

/-- The values that a task is given to work on. -/
def values : Task → List Value
  | .call callee args => callee :: args
  | .callClosure c args => .closure c :: args
  | _ => []

/-- The values that a task gives. -/
def given : (t : Task) → t.Result → List Value
  | .expr _ _, v | .call _ _, v | .callClosure _ _, v => [v]
  | .exprs _ _, vs => vs
  | .operand _ _ _, _ | .condition _ _, _ => []
  | .stmt _ _, c | .stmts _ _, c | .loop _ _ _, c => [Completion.value c]

/-! ### What tasks record -/

section Recording

variable {find : Finder} {n : Nat} {w : World} {l : Ledger}

/-- What is to be shown of each bound. -/
def RunsRecord (find : Finder) (n : Nat) : Prop :=
  ∀ (t : Task) (w : World) (l : Ledger), w.store.Recorded l → AllRecorded l t.values →
    Records l (fun a l' => AllRecorded l' (t.given a)) (t.run find n w)

theorem RunsRecord.expr (ih : RunsRecord find n) (h : w.store.Recorded l) (e : Expr) (scope : ScopeId) :
    Records l (fun v l' => v.Recorded l') (Evaluate.expr find n e scope w) :=
  (ih (.expr e scope) w l h .nil).imp fun _ _ hv => hv.head

theorem RunsRecord.exprs (ih : RunsRecord find n) (h : w.store.Recorded l) (es : List Expr) (scope : ScopeId) :
    Records l (fun vs l' => AllRecorded l' vs) (Evaluate.exprs find n es scope w) :=
  ih (.exprs es scope) w l h .nil

theorem RunsRecord.operand (ih : RunsRecord find n) (h : w.store.Recorded l) (op : LogicalOp) (e : Expr)
    (scope : ScopeId) : Records l (fun _ _ => True) (Evaluate.operand find n op e scope w) :=
  (ih (.operand op e scope) w l h .nil).imp fun _ _ _ => trivial

theorem RunsRecord.condition (ih : RunsRecord find n) (h : w.store.Recorded l) (e : Expr) (scope : ScopeId) :
    Records l (fun _ _ => True) (Evaluate.condition find n e scope w) :=
  (ih (.condition e scope) w l h .nil).imp fun _ _ _ => trivial

theorem RunsRecord.call (ih : RunsRecord find n) (h : w.store.Recorded l) {callee : Value} {args : List Value}
    (hcallee : callee.Recorded l) (hargs : AllRecorded l args) :
    Records l (fun v l' => v.Recorded l') (Evaluate.call find n callee args w) :=
  (ih (.call callee args) w l h (.cons hcallee hargs)).imp fun _ _ hv => hv.head

theorem RunsRecord.callClosure (ih : RunsRecord find n) (h : w.store.Recorded l) {c : Closure}
    {args : List Value} (hc : (Value.closure c).Recorded l) (hargs : AllRecorded l args) :
    Records l (fun v l' => v.Recorded l') (Evaluate.callClosure find n c args w) :=
  (ih (.callClosure c args) w l h (.cons hc hargs)).imp fun _ _ hv => hv.head

theorem RunsRecord.stmt (ih : RunsRecord find n) (h : w.store.Recorded l) (st : Stmt) (scope : ScopeId) :
    Records l (fun c l' => c.value.Recorded l') (Evaluate.stmt find n st scope w) :=
  (ih (.stmt st scope) w l h .nil).imp fun _ _ hc => hc.head

theorem RunsRecord.stmts (ih : RunsRecord find n) (h : w.store.Recorded l) (ss : List Stmt) (scope : ScopeId) :
    Records l (fun c l' => c.value.Recorded l') (Evaluate.stmts find n ss scope w) :=
  (ih (.stmts ss scope) w l h .nil).imp fun _ _ hc => hc.head

theorem RunsRecord.loop (ih : RunsRecord find n) (h : w.store.Recorded l) (test : Expr) (body : Stmt)
    (scope : ScopeId) : Records l (fun c l' => c.value.Recorded l') (Evaluate.loop find n test body scope w) :=
  (ih (.loop test body scope) w l h .nil).imp fun _ _ hc => hc.head

theorem expr_records (ih : RunsRecord find n) (h : w.store.Recorded l) (e : Expr) (scope : ScopeId) :
    Records l (fun v l' => v.Recorded l') (Evaluate.expr find (n + 1) e scope w) := by
  cases e with
  | number value => exact .ok h trivial
  | text value => exact .ok h trivial
  | bool value => exact .ok h trivial
  | var name id => exact .read h find scope name id
  | this id => exact .read h find scope "this" id
  | binary op left right =>
      apply Records.bind (ih.expr h left scope)
      intro a w₁ l₁ _ h₁ _
      apply Records.bind (ih.expr h₁ right scope)
      intro b w₂ l₂ _ h₂ _
      exact .ofExcept h₂ fun v hv => Operators.isPlain_of_binary hv
  | logical op left right =>
      apply Records.bind (ih.operand h op left scope)
      intro a w₁ l₁ _ h₁ _
      cases isDecided op a with
      | true =>
          simp only [if_true]
          exact .ok h₁ trivial
      | false =>
          simp only [Bool.false_eq_true, if_false]
          apply Records.bind (ih.operand h₁ op right scope)
          intro b w₂ l₂ _ h₂ _
          exact .ok h₂ trivial
  | unary op e =>
      apply Records.bind (ih.expr h e scope)
      intro a w₁ l₁ _ h₁ _
      exact .ofExcept h₁ fun v hv => Operators.isPlain_of_unary hv
  | member e name =>
      apply Records.bind (ih.expr h e scope)
      intro receiver w₁ l₁ _ h₁ hreceiver
      exact .property h₁ hreceiver name
  | call e args =>
      apply Records.bind (ih.expr h e scope)
      intro callee w₁ l₁ _ h₁ hcallee
      apply Records.bind (ih.exprs h₁ args scope)
      intro values w₂ l₂ grows h₂ hvalues
      exact ih.call h₂ (hcallee.mono grows) hvalues
  | lambda f =>
      apply Records.bind (.newClosure h f scope)
      intro c w₁ l₁ _ h₁ hc
      exact .ok h₁ hc

theorem exprs_record (ih : RunsRecord find n) (h : w.store.Recorded l) (es : List Expr) (scope : ScopeId) :
    Records l (fun vs l' => AllRecorded l' vs) (Evaluate.exprs find (n + 1) es scope w) := by
  cases es with
  | nil => exact .ok h .nil
  | cons e rest =>
      apply Records.bind (ih.expr h e scope)
      intro v w₁ l₁ _ h₁ hv
      apply Records.bind (ih.exprs h₁ rest scope)
      intro vs w₂ l₂ grows h₂ hvs
      exact .ok h₂ (.cons (hv.mono grows) hvs)

theorem call_records (ih : RunsRecord find n) (h : w.store.Recorded l) {callee : Value} {args : List Value}
    (hcallee : callee.Recorded l) (hargs : AllRecorded l args) :
    Records l (fun v l' => v.Recorded l') (Evaluate.call find (n + 1) callee args w) := by
  cases callee with
  | closure c => exact ih.callClosure h hcallee hargs
  | builtin f identity => exact .callBuiltin h f args
  | classValue c =>
      apply Records.bind (.newObject h c)
      intro object w₁ l₁ grows₁ h₁ hobject
      cases c.methods["init"]? with
      | none =>
          simp only
          split
          · exact .ok h₁ hobject
          · exact .error h₁ _
      | some method =>
          apply Records.bind (.bindMethod h₁ c method hobject)
          intro bound w₂ l₂ grows₂ h₂ hbound
          apply Records.bind (ih.callClosure h₂ hbound (hargs.mono (grows₁.trans grows₂)))
          intro _ w₃ l₃ grows₃ h₃ _
          exact .ok h₃ (hobject.mono (grows₂.trans grows₃))
  | _ => exact .error h _

/-- The parameters of a function get recorded values. -/
theorem arguments_record (h : w.store.Recorded l) (scope : ScopeId) (names : List String) {args : List Value}
    (hargs : AllRecorded l args) : Records l (fun _ _ => True) (defineAll scope (names.zip args) w) :=
  .defineAll scope h fun c hc => hargs c.2 (List.of_mem_zip hc).2

theorem callClosure_records (ih : RunsRecord find n) (h : w.store.Recorded l) (c : Closure) {args : List Value}
    (hargs : AllRecorded l args) :
    Records l (fun v l' => v.Recorded l') (Evaluate.callClosure find (n + 1) c args w) := by
  simp only [Evaluate.callClosure]
  split
  · exact .error h _
  · apply Records.bind (.newScope h (.call c.function) c.scope)
    intro scope w₁ l₁ grows h₁ _
    apply Records.bind (arguments_record h₁ scope c.function.paramNames (hargs.mono grows))
    intro _ w₂ l₂ _ h₂ _
    apply Records.bind (ih.stmts h₂ c.function.body scope)
    intro completion w₃ l₃ _ h₃ hvalue
    cases completion with
    | returned value => exact .ok h₃ hvalue
    | normal value => exact .ok h₃ trivial

/-- A class is declared under a new identity. -/
theorem classDecl_records (h : w.store.Recorded l) (name : String) (methods : List Function) (scope : ScopeId) :
    Records l (fun c l' => c.value.Recorded l')
      (Evaluate.stmt find (n + 1) (.classDecl name methods) scope w) := by
  have hvoid : Value.void.Recorded l := trivial
  apply Records.bind (.define h scope name hvoid)
  intro _ w₁ l₁ _ h₁ _
  apply Records.bind (.newIdentity h₁ fun identity => .classValue (.ofFunctions identity name methods scope))
  intro identity w₂ l₂ _ h₂ hentry
  have hclass : (Value.classValue (.ofFunctions identity name methods scope)).Recorded l₂ := hentry
  apply Records.bind (.define h₂ scope name hclass)
  intro _ w₃ l₃ _ h₃ _
  exact .ok h₃ trivial

theorem stmt_records (ih : RunsRecord find n) (h : w.store.Recorded l) (st : Stmt) (scope : ScopeId) :
    Records l (fun c l' => c.value.Recorded l') (Evaluate.stmt find (n + 1) st scope w) := by
  cases st with
  | expr e =>
      apply Records.bind (ih.expr h e scope)
      intro v w₁ l₁ _ h₁ hv
      exact .ok h₁ hv
  | declare name e =>
      apply Records.bind (ih.expr h e scope)
      intro v w₁ l₁ _ h₁ hv
      apply Records.bind (.define h₁ scope name hv)
      intro _ w₂ l₂ grows h₂ _
      exact .ok h₂ (Value.Recorded.mono grows hv)
  | assign target e =>
      apply Records.bind (ih.expr h e scope)
      intro v w₁ l₁ _ h₁ hv
      apply Records.bind (.write h₁ find scope target hv)
      intro _ w₂ l₂ grows h₂ _
      exact .ok h₂ (Value.Recorded.mono grows hv)
  | update target op =>
      apply Records.bind (.read h find scope target.name target.id)
      intro old w₁ l₁ _ h₁ _
      apply Records.bind (.ofExcept h₁ fun v hv => Operators.isPlain_of_binary hv)
      intro new w₂ l₂ _ h₂ hnew
      apply Records.bind (.write h₂ find scope target hnew)
      intro _ w₃ l₃ _ h₃ _
      exact .ok h₃ trivial
  | setMember object name e =>
      apply Records.bind (ih.expr h object scope)
      intro owner w₁ l₁ _ h₁ _
      cases owner with
      | object c id =>
          apply Records.bind (ih.expr h₁ e scope)
          intro v w₂ l₂ _ h₂ hv
          apply Records.bind (.setField h₂ id name hv)
          intro _ w₃ l₃ _ h₃ _
          exact .ok h₃ trivial
      | _ => exact .error h₁ _
  | block body =>
      apply Records.bind (.newScope h (.block body) scope)
      intro inner w₁ l₁ _ h₁ _
      exact ih.stmts h₁ body inner
  | ifElse test thenBranch elseBranch =>
      apply Records.bind (ih.condition h test scope)
      intro truth w₁ l₁ _ h₁ _
      cases truth with
      | true => exact ih.stmt h₁ thenBranch scope
      | false =>
          cases elseBranch with
          | none => exact .ok h₁ trivial
          | some branch => exact ih.stmt h₁ branch scope
  | whileLoop test body => exact ih.loop h test body scope
  | function f =>
      apply Records.bind (.newClosure h f scope)
      intro c w₁ l₁ _ h₁ hc
      apply Records.bind (.define h₁ scope f.displayName hc)
      intro _ w₂ l₂ _ h₂ _
      exact .ok h₂ trivial
  | ret value =>
      cases value with
      | none => exact .ok h trivial
      | some e =>
          apply Records.bind (ih.expr h e scope)
          intro v w₁ l₁ _ h₁ hv
          exact .ok h₁ hv
  | classDecl name methods => exact classDecl_records h name methods scope

theorem stmts_record (ih : RunsRecord find n) (h : w.store.Recorded l) (ss : List Stmt) (scope : ScopeId) :
    Records l (fun c l' => c.value.Recorded l') (Evaluate.stmts find (n + 1) ss scope w) := by
  cases ss with
  | nil => exact .ok h trivial
  | cons st rest =>
      apply Records.bind (ih.stmt h st scope)
      intro completion w₁ l₁ _ h₁ hvalue
      cases completion with
      | returned value => exact .ok h₁ hvalue
      | normal value => exact ih.stmts h₁ rest scope

theorem loop_records (ih : RunsRecord find n) (h : w.store.Recorded l) (test : Expr) (body : Stmt)
    (scope : ScopeId) :
    Records l (fun c l' => c.value.Recorded l') (Evaluate.loop find (n + 1) test body scope w) := by
  apply Records.bind (ih.condition h test scope)
  intro truth w₁ l₁ _ h₁ _
  cases truth with
  | false => exact .ok h₁ trivial
  | true =>
      apply Records.bind (ih.stmt h₁ body scope)
      intro completion w₂ l₂ _ h₂ hvalue
      cases completion with
      | returned value => exact .ok h₂ hvalue
      | normal value => exact ih.loop h₂ test body scope

/-- Whatever a task gives is recorded, if what it works on is. -/
theorem run_records (find : Finder) (n : Nat) : RunsRecord find n := by
  induction n with
  | zero =>
      intro t w l h _
      cases t with
      | call callee args => cases callee <;> exact .error h _
      | _ => exact .error h _
  | succ n ih =>
      intro t w l h hvalues
      cases t with
      | expr e scope => exact (expr_records ih h e scope).imp fun _ _ hv => .singleton hv
      | exprs es scope => exact exprs_record ih h es scope
      | operand op e scope =>
          apply Records.bind (ih.expr h e scope)
          intro v w₁ l₁ _ h₁ _
          cases v with
          | bool b => exact .ok h₁ .nil
          | _ => exact .error h₁ _
      | condition e scope =>
          apply Records.bind (ih.expr h e scope)
          intro v w₁ l₁ _ h₁ _
          cases v with
          | bool b => exact .ok h₁ .nil
          | _ => exact .error h₁ _
      | call callee args =>
          exact (call_records ih h hvalues.head hvalues.tail).imp fun _ _ hv => .singleton hv
      | callClosure c args =>
          exact (callClosure_records ih h c hvalues.tail).imp fun _ _ hv => .singleton hv
      | stmt st scope => exact (stmt_records ih h st scope).imp fun _ _ hc => .singleton hc
      | stmts ss scope => exact (stmts_record ih h ss scope).imp fun _ _ hc => .singleton hc
      | loop test body scope => exact (loop_records ih h test body scope).imp fun _ _ hc => .singleton hc

end Recording

/-! ### Tasks in the course of a task -/

/-- A task enters another one. It may hold values of its own until that one has ended. -/
inductive EntersHolding (find : Finder) (n : Nat) : Task → World → List Value → Task → World → Prop where
  | plain {t t' : Task} {w w' : World} (entered : Enters find n t w t' w') : EntersHolding find n t w [] t' w'
  /-- The left operand waits for the right one. -/
  | right {op : BinaryOp} {l r : Expr} {scope : ScopeId} {w w' : World} {a : Value}
      (done : Evaluate.expr find n l scope w = .ok a w') :
      EntersHolding find n (.expr (.binary op l r) scope) w [a] (.expr r scope) w'
  /-- What is called waits for its arguments. -/
  | args {e : Expr} {args : List Expr} {scope : ScopeId} {w w' : World} {f : Value}
      (done : Evaluate.expr find n e scope w = .ok f w') :
      EntersHolding find n (.expr (.call e args) scope) w [f] (.exprs args scope) w'
  /-- A value waits for those after it. -/
  | rest {e : Expr} {rest : List Expr} {scope : ScopeId} {w w' : World} {a : Value}
      (done : Evaluate.expr find n e scope w = .ok a w') :
      EntersHolding find n (.exprs (e :: rest) scope) w [a] (.exprs rest scope) w'
  /-- The instance waits for the value that its field will have. -/
  | field {object e : Expr} {name : String} {scope : ScopeId} {w w' : World} {c : Class} {id : ObjectId}
      (done : Evaluate.expr find n object scope w = .ok (.object c id) w') :
      EntersHolding find n (.stmt (.setMember object name e) scope) w [.object c id] (.expr e scope) w'
  /-- The new instance waits for its method `init`. -/
  | init {c : Class} {args : List Value} {method : Function} {w w' w'' : World} {object : ObjectId}
      {bound : Closure} (known : c.methods["init"]? = some method) (created : newObject w = .ok object w')
      (done : Eval.bind c method (.object c object) w' = .ok bound w'') :
      EntersHolding find n (.call (.classValue c) args) w [.object c object] (.callClosure bound args) w''

/-- In the course of the first task, which is begun in the first world while some values are held, the second
    task is begun in the second world. All values are held by then that the tasks around it hold. The numbers are
    the bounds of the two. -/
inductive Arrives (find : Finder) : Nat → Task → World → List Value → Nat → Task → World → List Value → Prop where
  | here {n : Nat} {t : Task} {w : World} {held : List Value} : Arrives find n t w held n t w held
  | inside {n k : Nat} {t t' u : Task} {w w' x : World} {held new all : List Value}
      (entered : EntersHolding find n t w new t' w')
      (h : Arrives find n t' w' (new ++ (t.values ++ held)) k u x all) :
      Arrives find (n + 1) t w held k u x all

section Handing

variable {find : Finder} {n : Nat} {t t' : Task} {w w' : World} {l : Ledger}

/-- When `init` begins, the new instance and the function it is bound to are recorded. -/
theorem init_records (h : w.store.Recorded l) {c : Class} {method : Function} {w₁ w₂ : World} {object : ObjectId}
    {bound : Closure} (created : newObject w = .ok object w₁)
    (done : Eval.bind c method (.object c object) w₁ = .ok bound w₂) :
    ∃ l', l.Grows l' ∧ w₂.store.Recorded l' ∧ (Value.closure bound).Recorded l' ∧
      (Value.object c object).Recorded l' := by
  obtain ⟨l₁, grows₁, h₁, hobject⟩ := (Records.newObject h c).of_eq_ok created
  obtain ⟨l₂, grows₂, h₂, hbound⟩ := (Records.bindMethod h₁ c method hobject).of_eq_ok done
  exact ⟨l₂, grows₁.trans grows₂, h₂, hbound, hobject.mono grows₂⟩

/-- A task that is entered from a recorded store begins in a recorded store, with recorded values. -/
theorem Enters.records (entered : Enters find n t w t' w') (h : w.store.Recorded l)
    (hvalues : AllRecorded l t.values) :
    ∃ l', l.Grows l' ∧ w'.store.Recorded l' ∧ AllRecorded l' t'.values := by
  have ih := run_records find n
  cases entered with
  | left | firstOperand | operand | object | callee | first | truth | test | value | initial | assigned | owner
  | branchTest | loop | returned | head | loopTest => exact ⟨l, .refl l, h, .nil⟩
  | closure => exact ⟨l, .refl l, h, hvalues⟩
  | right done | args done | rest done | field done =>
      obtain ⟨l₁, grows, h₁, _⟩ := (ih.expr h _ _).of_eq_ok done
      exact ⟨l₁, grows, h₁, .nil⟩
  | secondOperand done _ =>
      obtain ⟨l₁, grows, h₁, _⟩ := (ih.operand h _ _ _).of_eq_ok done
      exact ⟨l₁, grows, h₁, .nil⟩
  | thenBranch done | elseBranch done | loopBody done =>
      obtain ⟨l₁, grows, h₁, _⟩ := (ih.condition h _ _).of_eq_ok done
      exact ⟨l₁, grows, h₁, .nil⟩
  | call done done' =>
      obtain ⟨l₁, grows₁, h₁, hcallee⟩ := (ih.expr h _ _).of_eq_ok done
      obtain ⟨l₂, grows₂, h₂, hargs⟩ := (ih.exprs h₁ _ _).of_eq_ok done'
      exact ⟨l₂, grows₁.trans grows₂, h₂, .cons (hcallee.mono grows₂) hargs⟩
  | @init c args _ _ _ _ _ _ _ created done =>
      have hargs : AllRecorded l args := hvalues.tail
      obtain ⟨l₁, grows, h₁, hbound, _⟩ := init_records h created done
      exact ⟨l₁, grows, h₁, .cons hbound (hargs.mono grows)⟩
  | @body c args scope _ _ _ _ opened done =>
      have hargs : AllRecorded l args := hvalues.tail
      obtain ⟨l₁, grows₁, h₁, _⟩ := (Records.newScope h (.call c.function) c.scope).of_eq_ok opened
      obtain ⟨l₂, grows₂, h₂, _⟩ := (arguments_record h₁ scope _ (hargs.mono grows₁)).of_eq_ok done
      exact ⟨l₂, grows₁.trans grows₂, h₂, .nil⟩
  | @block body scope _ _ _ opened =>
      obtain ⟨l₁, grows, h₁, _⟩ := (Records.newScope h (.block body) scope).of_eq_ok opened
      exact ⟨l₁, grows, h₁, .nil⟩
  | tail done =>
      obtain ⟨l₁, grows, h₁, _⟩ := (ih.stmt h _ _).of_eq_ok done
      exact ⟨l₁, grows, h₁, .nil⟩
  | again done done' =>
      obtain ⟨l₁, grows₁, h₁, _⟩ := (ih.condition h _ _).of_eq_ok done
      obtain ⟨l₂, grows₂, h₂, _⟩ := (ih.stmt h₁ _ _).of_eq_ok done'
      exact ⟨l₂, grows₁.trans grows₂, h₂, .nil⟩

/-- The values that wait for the task that is entered are recorded with those that it works on. -/
theorem EntersHolding.records {new : List Value} (entered : EntersHolding find n t w new t' w')
    (h : w.store.Recorded l) (hvalues : AllRecorded l t.values) :
    ∃ l', l.Grows l' ∧ w'.store.Recorded l' ∧ AllRecorded l' t'.values ∧ AllRecorded l' new := by
  have ih := run_records find n
  cases entered with
  | plain entered =>
      obtain ⟨l₁, grows, h₁, hvalues₁⟩ := entered.records h hvalues
      exact ⟨l₁, grows, h₁, hvalues₁, .nil⟩
  | right done | args done | rest done | field done =>
      obtain ⟨l₁, grows, h₁, hv⟩ := (ih.expr h _ _).of_eq_ok done
      exact ⟨l₁, grows, h₁, .nil, .singleton hv⟩
  | @init c args _ _ _ _ _ _ _ created done =>
      have hargs : AllRecorded l args := hvalues.tail
      obtain ⟨l₁, grows, h₁, hbound, hobject⟩ := init_records h created done
      exact ⟨l₁, grows, h₁, .cons hbound (hargs.mono grows), .singleton hobject⟩

/-- Wherever a task arrives, the store is recorded, and so are the values there and all that are held. -/
theorem Arrives.records {k : Nat} {u : Task} {x : World} {held all : List Value}
    (arrives : Arrives find n t w held k u x all) (h : w.store.Recorded l) (hvalues : AllRecorded l t.values)
    (hheld : AllRecorded l held) :
    ∃ l', l.Grows l' ∧ x.store.Recorded l' ∧ AllRecorded l' u.values ∧ AllRecorded l' all := by
  induction arrives generalizing l with
  | here => exact ⟨l, .refl l, h, hvalues, hheld⟩
  | inside entered _ ih =>
      obtain ⟨l₁, grows₁, h₁, hvalues₁, hnew⟩ := entered.records h hvalues
      have hheld₁ := hnew.append ((hvalues.append hheld).mono grows₁)
      obtain ⟨l₂, grows₂, hrest⟩ := ih h₁ hvalues₁ hheld₁
      exact ⟨l₂, grows₁.trans grows₂, hrest⟩

end Handing

end Task

/-! ### Whole programs -/

/-- In the course of a program, which is begun while some values are held, a task is begun. The values of the
    statements before it are held, too. -/
inductive ProgramArrives (find : Finder) (fuel : Nat) (scope : ScopeId) :
    Program → World → List Value → Nat → Task → World → List Value → Prop where
  | here {node : Located Stmt} {rest : Program} {w x : World} {k : Nat} {u : Task} {held all : List Value}
      (h : Task.Arrives find fuel (.stmt node.value scope) w held k u x all) :
      ProgramArrives find fuel scope (node :: rest) w held k u x all
  | later {node : Located Stmt} {rest : Program} {w w' x : World} {c : Completion} {k : Nat} {u : Task}
      {held all : List Value} (done : stmt find fuel node.value scope w = .ok c w')
      (h : ProgramArrives find fuel scope rest w' (c.value :: held) k u x all) :
      ProgramArrives find fuel scope (node :: rest) w held k u x all

section Programs

variable {find : Finder} {fuel : Nat} {scope : ScopeId} {p : Program} {w : World} {l : Ledger}

/-- The values of all statements of a program are recorded. -/
theorem program_records (find : Finder) (fuel : Nat) (scope : ScopeId) (p : Program) (h : w.store.Recorded l) :
    Records l (fun values l' => AllRecorded l' values) (program find fuel scope p w) := by
  induction p generalizing w l with
  | nil => exact .ok h .nil
  | cons node rest ih =>
      have hnode := (Task.run_records find fuel).stmt h node.value scope
      rw [program_cons]
      cases hrun : stmt find fuel node.value scope w with
      | error e w' => exact hnode.of_eq_error hrun
      | ok c w' =>
          obtain ⟨l₁, grows₁, h₁, hc⟩ := hnode.of_eq_ok hrun
          have hrest := ih h₁
          simp only
          cases hp : program find fuel scope rest w' with
          | error e w'' =>
              obtain ⟨l₂, grows₂, h₂⟩ := hrest.of_eq_error hp
              exact ⟨l₂, grows₁.trans grows₂, h₂⟩
          | ok values w'' =>
              obtain ⟨l₂, grows₂, h₂, hvalues⟩ := hrest.of_eq_ok hp
              exact ⟨l₂, grows₁.trans grows₂, h₂, .cons (hc.mono grows₂) hvalues⟩

/-- Wherever a program arrives, the store is recorded, and so are the values there and all that are held. -/
theorem ProgramArrives.records {k : Nat} {u : Task} {x : World} {held all : List Value}
    (arrives : ProgramArrives find fuel scope p w held k u x all) (h : w.store.Recorded l)
    (hheld : AllRecorded l held) :
    ∃ l', l.Grows l' ∧ x.store.Recorded l' ∧ AllRecorded l' u.values ∧ AllRecorded l' all := by
  induction arrives generalizing l with
  | here arrives => exact arrives.records h .nil hheld
  | later done _ ih =>
      obtain ⟨l₁, grows₁, h₁, hc⟩ := ((Task.run_records find fuel).stmt h _ _).of_eq_ok done
      obtain ⟨l₂, grows₂, hrest⟩ := ih h₁ (.cons hc (hheld.mono grows₁))
      exact ⟨l₂, grows₁.trans grows₂, hrest⟩

end Programs

end Kiln.Evaluate
