/-
Module: Kiln.Proofs.Evaluation.Soundness
Purpose: Evaluation keeps stores sound. The invariant is carried by tasks: a task fits a store when the
  parts of programs that it executes are placed there. Each task hands down to the tasks that it enters
  what they need, so every reference that is ever visited is placed, and a variable can be missing
  only for such a reference.
Main exports: Task.Fits, Task.Done, Task.enters_fits, Task.run_safe, Task.Visits.referred, program_safe,
  ProgramVisits.referred
-/
import Kiln.Proofs.Evaluation.Safe
import Kiln.Proofs.Evaluation.Visits

namespace Kiln

open Eval Evaluate

namespace Setting

/-- The value of an expression in a scope. An unnamed function is valid only once its scope has all that the
    function refers to, so of its value it is said what it is. -/
def Evaluated (Γ : Setting) (s : Store) (scope : ScopeId) : Expr → Value → Prop
  | .lambda f, v => ∃ identity, v = .closure ⟨identity, f, scope⟩
  | _, v => Γ.Valid s v

variable {Γ : Setting} {s : Store} {scope : ScopeId}

/-- Several values are valid. -/
def AllValid (Γ : Setting) (s : Store) (vs : List Value) : Prop := ∀ v ∈ vs, Γ.Valid s v

/-- A statement ends with a valid value, and if it runs to its end, it has declared its variables. -/
def Completes (Γ : Setting) (s : Store) (scope : ScopeId) (st : Stmt) (c : Completion) : Prop :=
  Γ.Valid s c.value ∧ ∀ v, c = .normal v → Γ.Declares s scope st.declared

theorem AllValid.mono {t : Store} (grows : s.Grows t) {vs : List Value} (h : Γ.AllValid s vs) :
    Γ.AllValid t vs :=
  fun v hv => (h v hv).mono grows

theorem Evaluated.mono {t : Store} (grows : s.Grows t) {e : Expr} {v : Value}
    (h : Γ.Evaluated s scope e v) : Γ.Evaluated t scope e v := by
  cases e with
  | lambda f => exact h
  | _ => exact Valid.mono grows h

theorem Evaluated.valid {e : Expr} {v : Value} (h : Γ.Evaluated s scope e v)
    (placed : Γ.ExprPlaced s scope e) : Γ.Valid s v := by
  cases e with
  | lambda f =>
      obtain ⟨identity, rfl⟩ := h
      exact ⟨.function, placed⟩
  | _ => exact h

end Setting

theorem Class.mem_of_methods_ofFunctions {identity : Identity} {className name : String}
    {functions : List Function} {scope : ScopeId} {m : Function}
    (h : (Class.ofFunctions identity className functions scope).methods[name]? = some m) :
    m ∈ functions := by
  have hfold : ∀ (fs : List Function) (table : Std.ExtTreeMap String Function),
      (fs.foldl (fun table f => table.insert f.displayName f) table)[name]? = some m →
        m ∈ fs ∨ table[name]? = some m := by
    intro fs
    induction fs with
    | nil =>
        intro table htable
        exact .inr htable
    | cons f rest ih =>
        intro table htable
        rcases ih _ htable with hrest | hinsert
        · exact .inl (List.mem_cons_of_mem f hrest)
        · rw [Std.ExtTreeMap.getElem?_insert] at hinsert
          split at hinsert
          · cases hinsert
            exact .inl List.mem_cons_self
          · exact .inr hinsert
  rcases hfold functions ∅ h with hmem | hempty
  · exact hmem
  · simp at hempty

namespace Evaluate.Task

variable {Γ : Setting} {find : Finder} {n : Nat}

/-- What a task needs of the store in which it begins. -/
def Fits (Γ : Setting) (s : Store) : Task → Prop
  | .expr e scope => Γ.ExprFits s scope e
  | .exprs es scope => Γ.ExprsPlaced s scope es
  | .operand _ e scope | .condition e scope => Γ.ExprPlaced s scope e
  | .call callee args => Γ.Valid s callee ∧ Γ.AllValid s args
  | .callClosure c args => Γ.FunctionPlaced s c.scope c.function ∧ Γ.AllValid s args
  | .stmt st scope => Γ.StmtPlaced s scope st
  | .stmts ss scope => Γ.StmtsPlaced s scope ss
  | .loop test body scope => Γ.StmtPlaced s scope (.whileLoop test body)

/-- What is known of the result of a task in the store in which it ends. -/
def Done (Γ : Setting) : (t : Task) → t.Result → Store → Prop
  | .expr e scope, v, s => Γ.Evaluated s scope e v
  | .exprs _ _, vs, s => Γ.AllValid s vs
  | .operand _ _ _, _, _ | .condition _ _, _, _ => True
  | .call _ _, v, s | .callClosure _ _, v, s => Γ.Valid s v
  | .stmt st scope, c, s => Γ.Completes s scope st c
  | .stmts _ _, c, s | .loop _ _ _, c, s => Γ.Valid s (Completion.value c)

/-- All tasks that fit are safe within the bound. -/
def RunsSafe (Γ : Setting) (find : Finder) (n : Nat) : Prop :=
  ∀ (t : Task) (w : World), Γ.Sound w.store → t.Fits Γ w.store → Safe Γ find w.store (t.Done Γ) (t.run find n w)

/-! ### The tasks that a task enters -/

theorem expr_enters_fits (safe : RunsSafe Γ find n) {e : Expr} {scope : ScopeId} {t : Task} {w w' : World}
    (entered : Enters find n (.expr e scope) w t w') (sound : Γ.Sound w.store)
    (fits : Γ.ExprFits w.store scope e) :
    Γ.Sound w'.store ∧ w.store.Grows w'.store ∧ t.Fits Γ w'.store := by
  cases entered with
  | left => exact ⟨sound, .refl _, (Setting.ExprPlaced.binary fits).1.fits⟩
  | @right _ l _ _ _ _ _ done =>
      obtain ⟨hl, hr⟩ := Setting.ExprPlaced.binary fits
      obtain ⟨sound', grows, _⟩ := (safe (.expr l scope) w sound hl.fits).of_eq_ok done
      exact ⟨sound', grows, Setting.ExprPlaced.fits (hr.mono grows)⟩
  | firstOperand => exact ⟨sound, .refl _, (Setting.ExprPlaced.logical fits).1⟩
  | @secondOperand op l _ _ _ _ _ done =>
      obtain ⟨hl, hr⟩ := Setting.ExprPlaced.logical fits
      obtain ⟨sound', grows, _⟩ := (safe (.operand op l scope) w sound hl).of_eq_ok done
      exact ⟨sound', grows, hr.mono grows⟩
  | operand => exact ⟨sound, .refl _, (Setting.ExprPlaced.unary fits).fits⟩
  | object => exact ⟨sound, .refl _, (Setting.ExprPlaced.member fits).fits⟩
  | callee => exact ⟨sound, .refl _, (Setting.ExprPlaced.call fits).1.fits⟩
  | @args e _ _ _ _ _ done =>
      obtain ⟨he, hargs⟩ := Setting.ExprPlaced.call fits
      obtain ⟨sound', grows, _⟩ := (safe (.expr e scope) w sound he.fits).of_eq_ok done
      exact ⟨sound', grows, hargs.mono grows⟩
  | @call e es _ _ w₁ _ f values done done' =>
      obtain ⟨he, hargs⟩ := Setting.ExprPlaced.call fits
      obtain ⟨sound₁, grows₁, hf⟩ := (safe (.expr e scope) w sound he.fits).of_eq_ok done
      obtain ⟨sound₂, grows₂, hvalues⟩ :=
        (safe (.exprs es scope) w₁ sound₁ (hargs.mono grows₁)).of_eq_ok done'
      have hcallee : Γ.Valid w₁.store f := Setting.Evaluated.valid hf (he.mono grows₁)
      exact ⟨sound₂, grows₁.trans grows₂, hcallee.mono grows₂, hvalues⟩

theorem call_enters_fits {callee : Value} {args : List Value} {t : Task} {w w' : World}
    (entered : Enters find n (.call callee args) w t w') (sound : Γ.Sound w.store)
    (valid : Γ.Valid w.store callee) (validArgs : Γ.AllValid w.store args) :
    Γ.Sound w'.store ∧ w.store.Grows w'.store ∧ t.Fits Γ w'.store := by
  cases entered with
  | closure => exact ⟨sound, .refl _, valid, validArgs⟩
  | @init c _ method _ w₁ _ object bound known created done =>
      obtain ⟨sound₁, grows₁, _⟩ := (Safe.newObject find sound).of_eq_ok created
      have hobject : Γ.Valid w₁.store (.object c object) := Setting.Valid.mono grows₁ valid
      obtain ⟨sound₂, grows₂, hbound⟩ := (Safe.bindMethod find sound₁ hobject.1
        (hobject.2 "init" method known) hobject).of_eq_ok done
      have grows := grows₁.trans grows₂
      exact ⟨sound₂, grows, hbound, validArgs.mono grows⟩

/-- When the parameters of a function have got their values in a new scope, its body is placed there. -/
theorem arguments_safe (find : Finder) {c : Closure} {args : List Value} {scope : ScopeId}
    {w w₁ : World} (sound : Γ.Sound w.store) (placed : Γ.FunctionPlaced w.store c.scope c.function)
    (valid : Γ.AllValid w.store args) (arity : args.length = c.function.paramNames.length)
    (opened : newScope (.call c.function) c.scope w = .ok scope w₁) :
    w.store.Grows w₁.store ∧
      Safe Γ find w₁.store (fun _ t => Γ.StmtsPlaced t scope c.function.body)
        (defineAll scope (c.function.paramNames.zip args) w₁) := by
  obtain ⟨sound₁, grows₁, horigin, hparent⟩ :=
    (Safe.newScope find sound (sound.lt_size_of_function placed)).of_eq_ok opened
  refine ⟨grows₁, ?_⟩
  have hnamed : ∀ cell ∈ c.function.paramNames.zip args, Γ.Named w₁.store scope cell.1 := by
    intro cell hcell
    have hparam : cell.1 ∈ c.function.paramNames := (List.of_mem_zip hcell).1
    exact .inr (.inr ⟨_, horigin, List.mem_append_left _ hparam⟩)
  have hvalid : ∀ cell ∈ c.function.paramNames.zip args, Γ.Valid w₁.store cell.2 := by
    intro cell hcell
    exact (valid cell.2 (List.of_mem_zip hcell).2).mono grows₁
  refine (Safe.defineAll find _ sound₁ (Store.lt_size_of_origin? horigin) hnamed hvalid).imp ?_
  intro _ t grows₂ hdefined
  apply placed.body (grows₁.trans grows₂) (grows₂.origin horigin) (grows₂.parent hparent)
  -- there is an argument for every parameter
  intro x hx
  rw [← List.map_fst_zip (Nat.le_of_eq arity.symm)] at hx
  obtain ⟨cell, hcell, rfl⟩ := List.mem_map.1 hx
  exact hdefined cell hcell

theorem callClosure_enters_fits {c : Closure} {args : List Value} {t : Task} {w w' : World}
    (entered : Enters find n (.callClosure c args) w t w') (sound : Γ.Sound w.store)
    (placed : Γ.FunctionPlaced w.store c.scope c.function) (valid : Γ.AllValid w.store args) :
    Γ.Sound w'.store ∧ w.store.Grows w'.store ∧ t.Fits Γ w'.store := by
  cases entered with
  | body arity opened done =>
      obtain ⟨grows₁, harguments⟩ := arguments_safe find sound placed valid arity opened
      obtain ⟨sound₂, grows₂, hbody⟩ := harguments.of_eq_ok done
      exact ⟨sound₂, grows₁.trans grows₂, hbody⟩

theorem stmt_enters_fits (safe : RunsSafe Γ find n) {st : Stmt} {scope : ScopeId} {t : Task} {w w' : World}
    (entered : Enters find n (.stmt st scope) w t w') (sound : Γ.Sound w.store)
    (placed : Γ.StmtPlaced w.store scope st) :
    Γ.Sound w'.store ∧ w.store.Grows w'.store ∧ t.Fits Γ w'.store := by
  cases entered with
  | value => exact ⟨sound, .refl _, placed.expr.fits⟩
  | initial => exact ⟨sound, .refl _, placed.declare_initial⟩
  | assigned => exact ⟨sound, .refl _, placed.assign.1.fits⟩
  | owner => exact ⟨sound, .refl _, placed.setMember.1.fits⟩
  | @field object _ _ _ _ _ _ _ done =>
      obtain ⟨hobject, he⟩ := placed.setMember
      obtain ⟨sound', grows, _⟩ := (safe (.expr object scope) w sound hobject.fits).of_eq_ok done
      exact ⟨sound', grows, Setting.ExprPlaced.fits (he.mono grows)⟩
  | block opened =>
      obtain ⟨sound', grows, horigin, hparent⟩ :=
        (Safe.newScope find sound (sound.lt_size placed)).of_eq_ok opened
      exact ⟨sound', grows, placed.block grows horigin hparent⟩
  | branchTest => exact ⟨sound, .refl _, placed.test⟩
  | @thenBranch e _ _ _ _ _ done =>
      obtain ⟨sound', grows, _⟩ := (safe (.condition e scope) w sound placed.test).of_eq_ok done
      exact ⟨sound', grows, placed.thenBranch.mono grows⟩
  | @elseBranch e _ _ _ _ _ done =>
      obtain ⟨sound', grows, _⟩ := (safe (.condition e scope) w sound placed.test).of_eq_ok done
      exact ⟨sound', grows, placed.elseBranch.mono grows⟩
  | loop => exact ⟨sound, .refl _, placed⟩
  | returned => exact ⟨sound, .refl _, placed.ret.fits⟩

/-- A task hands down what the tasks that it enters need. -/
theorem enters_fits (safe : RunsSafe Γ find n) {t t' : Task} {w w' : World}
    (entered : Enters find n t w t' w') (sound : Γ.Sound w.store) (fits : t.Fits Γ w.store) :
    Γ.Sound w'.store ∧ w.store.Grows w'.store ∧ t'.Fits Γ w'.store := by
  cases t with
  | expr e scope => exact expr_enters_fits safe entered sound fits
  | call callee args => exact call_enters_fits entered sound fits.1 fits.2
  | callClosure c args => exact callClosure_enters_fits entered sound fits.1 fits.2
  | stmt st scope => exact stmt_enters_fits safe entered sound fits
  | exprs es scope =>
      cases entered with
      | first => exact ⟨sound, .refl _, (Setting.ExprsPlaced.cons fits).1.fits⟩
      | @rest e _ _ _ _ _ done =>
          obtain ⟨he, hrest⟩ := Setting.ExprsPlaced.cons fits
          obtain ⟨sound', grows, _⟩ := (safe (.expr e scope) w sound he.fits).of_eq_ok done
          exact ⟨sound', grows, hrest.mono grows⟩
  | operand op e scope =>
      cases entered with
      | truth => exact ⟨sound, .refl _, Setting.ExprPlaced.fits fits⟩
  | condition e scope =>
      cases entered with
      | test => exact ⟨sound, .refl _, Setting.ExprPlaced.fits fits⟩
  | stmts ss scope =>
      cases entered with
      | head => exact ⟨sound, .refl _, Setting.StmtsPlaced.head fits⟩
      | @tail st _ _ _ _ v done =>
          have hhead := Setting.StmtsPlaced.head fits
          obtain ⟨sound', grows, _, hdeclared⟩ := (safe (.stmt st scope) w sound hhead).of_eq_ok done
          exact ⟨sound', grows, Setting.StmtsPlaced.tail (fits.mono grows) (hdeclared v rfl)⟩
  | loop e body scope =>
      obtain ⟨htest, hbody⟩ := Setting.StmtPlaced.whileLoop fits
      cases entered with
      | loopTest => exact ⟨sound, .refl _, htest⟩
      | loopBody done =>
          obtain ⟨sound', grows, _⟩ := (safe (.condition e scope) w sound htest).of_eq_ok done
          exact ⟨sound', grows, hbody.mono grows⟩
      | @again _ _ _ _ w₁ _ _ done done' =>
          obtain ⟨sound₁, grows₁, _⟩ := (safe (.condition e scope) w sound htest).of_eq_ok done
          obtain ⟨sound₂, grows₂, _⟩ :=
            (safe (.stmt body scope) w₁ sound₁ (hbody.mono grows₁)).of_eq_ok done'
          exact ⟨sound₂, grows₁.trans grows₂, fits.mono (grows₁.trans grows₂)⟩

theorem RunsSafe.enter (safe : RunsSafe Γ find n) {t t' : Task} {w w' : World}
    (entered : Enters find n t w t' w') (sound : Γ.Sound w.store) (fits : t.Fits Γ w.store) :
    Safe Γ find w'.store (t'.Done Γ) (t'.run find n w') := by
  obtain ⟨sound', _, fits'⟩ := enters_fits safe entered sound fits
  exact safe t' w' sound' fits'

/-! ### Each task in turn -/

theorem expr_safe (honest : find.Honest) (ih : RunsSafe Γ find n) (e : Expr) (scope : ScopeId)
    (w : World) (sound : Γ.Sound w.store) (fits : Γ.ExprFits w.store scope e) :
    Safe Γ find w.store (fun v s => Γ.Evaluated s scope e v)
      (Evaluate.expr find (n + 1) e scope w) := by
  cases e with
  | number value => exact .ok sound trivial
  | text value => exact .ok sound trivial
  | bool value => exact .ok sound trivial
  | var name id => exact .read honest sound (Setting.ExprPlaced.var fits)
  | this id => exact .read honest sound (Setting.ExprPlaced.this fits)
  | binary op l r =>
      refine .bind (ih.enter .left sound fits) fun a w' ha _ _ _ => ?_
      refine .bind (ih.enter (.right ha) sound fits) fun b w'' _ sound'' _ _ => ?_
      exact .binary sound'' op a b
  | logical op l r =>
      refine .bind (ih.enter .firstOperand sound fits) fun a w' ha sound' _ _ => ?_
      cases hd : isDecided op a with
      | true =>
          simp only [if_true]
          exact .ok sound' trivial
      | false =>
          simp only [Bool.false_eq_true, if_false]
          refine .bind (ih.enter (.secondOperand ha hd) sound fits) fun b w'' _ sound'' _ _ => ?_
          exact .ok sound'' trivial
  | unary op e =>
      refine .bind (ih.enter .operand sound fits) fun a w' _ sound' _ _ => ?_
      exact .unary sound' op a
  | member e name =>
      refine .bind (ih.enter .object sound fits) fun a w' _ sound' grows ha => ?_
      exact .property sound' (Setting.Evaluated.valid ha (Setting.Placed.mono grows fits)) name
  | call e args =>
      refine .bind (ih.enter .callee sound fits) fun f w' hf _ _ _ => ?_
      refine .bind (ih.enter (.args hf) sound fits) fun values w'' hv _ _ _ => ?_
      exact ih.enter (.call hf hv) sound fits
  | lambda f =>
      refine .bind (.newClosure find sound f scope) fun c w' _ sound' _ hc => ?_
      obtain ⟨identity, rfl⟩ := hc
      exact .ok sound' ⟨identity, rfl⟩

theorem exprs_safe (ih : RunsSafe Γ find n) (es : List Expr) (scope : ScopeId) (w : World)
    (sound : Γ.Sound w.store) (fits : Γ.ExprsPlaced w.store scope es) :
    Safe Γ find w.store (fun vs s => Γ.AllValid s vs)
      (Evaluate.exprs find (n + 1) es scope w) := by
  cases es with
  | nil => exact .ok sound (by simp [Setting.AllValid])
  | cons e rest =>
      have he := fits.cons.1
      refine .bind (ih.enter .first sound fits) fun a w' ha _ grows' hvalue => ?_
      refine .bind (ih.enter (.rest ha) sound fits) fun vs w'' _ sound'' grows'' hvalues => ?_
      refine .ok sound'' fun v hv => ?_
      rcases List.mem_cons.1 hv with rfl | hv
      · exact (Setting.Evaluated.valid hvalue (he.mono grows')).mono grows''
      · exact hvalues v hv

theorem call_safe (ih : RunsSafe Γ find n) (callee : Value) (args : List Value) (w : World)
    (sound : Γ.Sound w.store) (fits : Fits Γ w.store (.call callee args)) :
    Safe Γ find w.store (fun v s => Γ.Valid s v) (Evaluate.call find (n + 1) callee args w) := by
  cases callee with
  | closure c => exact ih.enter .closure sound fits
  | classValue c =>
      refine .bind (.newObject find sound) fun object w' ho sound' grows' _ => ?_
      have hclass : Γ.Valid w'.store (.object c object) := Setting.Valid.mono grows' fits.1
      cases hm : c.methods["init"]? with
      | none =>
          simp only
          split
          · exact .ok sound' hclass
          · exact .fail sound' (by simp)
      | some method =>
          refine .bind (.bindMethod find sound' hclass.1 (hclass.2 _ _ hm) hclass)
            fun bound w'' hb _ grows'' _ => ?_
          refine .bind (ih.enter (.init hm ho hb) sound fits) fun _ w₃ _ sound₃ grows₃ _ => ?_
          exact .ok sound₃ (hclass.mono (grows''.trans grows₃))
  | builtin f identity => exact .callBuiltin sound f args
  | _ => exact .fail sound (by simp)

theorem callClosure_safe (ih : RunsSafe Γ find n) (c : Closure) (args : List Value) (w : World)
    (sound : Γ.Sound w.store) (fits : Fits Γ w.store (.callClosure c args)) :
    Safe Γ find w.store (fun v s => Γ.Valid s v)
      (Evaluate.callClosure find (n + 1) c args w) := by
  simp only [Evaluate.callClosure]
  split
  · exact .fail sound (by simp)
  · next harity =>
    have arity := Decidable.not_not.1 harity
    refine .bind (.newScope find sound (sound.lt_size_of_function fits.1)) fun scope w' hs _ _ _ => ?_
    have harguments := (arguments_safe find sound fits.1 fits.2 arity hs).2
    refine .bind harguments fun _ w'' hd _ _ _ => ?_
    refine .bind (ih.enter (.body arity hs hd) sound fits) fun c w₃ _ sound₃ _ hc => ?_
    cases c with
    | returned value => exact .ok sound₃ hc
    | normal value => exact .ok sound₃ trivial

/-- The value of a declaration is valid at the latest when the variable is there. -/
theorem declare_safe (ih : RunsSafe Γ find n) (name : String) (e : Expr) (scope : ScopeId) (w : World)
    (sound : Γ.Sound w.store) (placed : Γ.StmtPlaced w.store scope (.declare name e)) :
    Safe Γ find w.store (fun c s => Γ.Completes s scope (.declare name e) c)
      (Evaluate.stmt find (n + 1) (.declare name e) scope w) := by
  have hlt := sound.lt_size placed
  refine .bind (ih.enter .initial sound placed) fun v w' _ sound' grows' hv => ?_
  have hnamed : Γ.Named w'.store scope name := (placed.named List.mem_cons_self).mono grows'
  refine .bind (.define sound' hnamed (grows'.lt_size hlt) fun t grows hd => ?_)
    fun _ w'' _ sound'' _ hd => ?_
  · -- by now an unnamed function has all that it refers to
    have hplaced := Setting.Placed.mono (grows'.trans grows) placed
    exact (hv.mono grows).valid (Setting.StmtPlaced.declare_value hplaced hd)
  · exact .ok sound'' ⟨hd.2, fun _ _ => .singleton hd.1⟩

/-- A declared function may refer to itself, so it is valid once its name is there. -/
theorem function_safe (f : Function) (scope : ScopeId) (w : World) (sound : Γ.Sound w.store)
    (placed : Γ.StmtPlaced w.store scope (.function f)) :
    Safe Γ find w.store (fun c s => Γ.Completes s scope (.function f) c)
      (Evaluate.stmt find (n + 1) (.function f) scope w) := by
  have hlt := sound.lt_size placed
  refine .bind (.newClosure find sound f scope) fun c w' _ sound' grows' hc => ?_
  obtain ⟨identity, rfl⟩ := hc
  have hnamed : Γ.Named w'.store scope f.displayName :=
    (placed.named List.mem_cons_self).mono grows'
  refine .bind (.define sound' hnamed (grows'.lt_size hlt) fun t grows hd => ?_)
    fun _ w'' _ sound'' _ hd => ?_
  · exact Setting.StmtPlaced.function (Setting.Placed.mono (grows'.trans grows) placed) hd
  · exact .ok sound'' ⟨trivial, fun _ _ => .singleton hd.1⟩

/-- The name of a class is there before the class is made. -/
theorem classDecl_safe (name : String) (methods : List Function) (scope : ScopeId) (w : World)
    (sound : Γ.Sound w.store) (placed : Γ.StmtPlaced w.store scope (.classDecl name methods)) :
    Safe Γ find w.store (fun c s => Γ.Completes s scope (.classDecl name methods) c)
      (Evaluate.stmt find (n + 1) (.classDecl name methods) scope w) := by
  have hlt := sound.lt_size placed
  have hnamed : Γ.Named w.store scope name := placed.named List.mem_cons_self
  refine .bind (.define sound hnamed hlt fun _ _ _ => trivial) fun _ w₁ _ sound₁ grows₁ hd₁ => ?_
  refine .bind (.newIdentity find sound₁) fun identity w₂ _ sound₂ grows₂ _ => ?_
  have grows := grows₁.trans grows₂
  refine .bind (.define sound₂ (hnamed.mono grows) (grows.lt_size hlt) fun t grows₃ hd => ?_)
    fun _ w₃ _ sound₃ _ hd => ?_
  · refine ⟨grows₃.lt_size (grows.lt_size hlt), fun _ m hm => ?_⟩
    have hplaced := Setting.Placed.mono (grows.trans grows₃) placed
    exact Setting.StmtPlaced.methods hplaced hd (Class.mem_of_methods_ofFunctions hm)
  · exact .ok sound₃ ⟨trivial, fun _ _ => .singleton hd.1⟩

theorem stmt_safe (honest : find.Honest) (ih : RunsSafe Γ find n) (st : Stmt) (scope : ScopeId)
    (w : World) (sound : Γ.Sound w.store) (placed : Γ.StmtPlaced w.store scope st) :
    Safe Γ find w.store (fun c s => Γ.Completes s scope st c)
      (Evaluate.stmt find (n + 1) st scope w) := by
  have hlt := sound.lt_size placed
  cases st with
  | expr e =>
      refine .bind (ih.enter .value sound placed) fun v w' _ sound' grows' hv => ?_
      have hvalid : Γ.Valid w'.store v := Setting.Evaluated.valid hv (placed.expr.mono grows')
      exact .ok sound' ⟨hvalid, fun _ _ => .nil⟩
  | declare name e => exact declare_safe ih name e scope w sound placed
  | assign target e =>
      obtain ⟨he, htarget⟩ := placed.assign
      refine .bind (ih.enter .assigned sound placed) fun v w' _ sound' grows' hv => ?_
      have hvalid : Γ.Valid w'.store v := Setting.Evaluated.valid hv (he.mono grows')
      refine .bind (.write honest sound' (htarget.mono grows') hvalid)
        fun _ w'' _ sound'' grows'' _ => ?_
      exact .ok sound'' ⟨hvalid.mono grows'', fun _ _ => .nil⟩
  | update target op =>
      refine .bind (.read honest sound placed.update) fun old w' _ sound' grows' _ => ?_
      refine .bind (.binary sound' op.binary old (.number 1)) fun new w'' _ sound'' grows'' hnew => ?_
      refine .bind (.write honest sound'' (placed.update.mono (grows'.trans grows'')) hnew)
        fun _ w₃ _ sound₃ _ _ => ?_
      exact .ok sound₃ ⟨trivial, fun _ _ => .nil⟩
  | setMember object name e =>
      refine .bind (ih.enter .owner sound placed) fun value w' hv sound' grows' _ => ?_
      cases value with
      | object c id =>
          refine .bind (ih.enter (.field hv) sound placed) fun v w'' _ sound'' grows'' hv => ?_
          have hvalid : Γ.Valid w''.store v :=
            Setting.Evaluated.valid hv (placed.setMember.2.mono (grows'.trans grows''))
          refine .bind (.setField sound'' id name hvalid) fun _ w₃ _ sound₃ _ _ => ?_
          exact .ok sound₃ ⟨trivial, fun _ _ => .nil⟩
      | _ => exact .fail sound' (by simp)
  | block body =>
      refine .bind (.newScope find sound hlt) fun inner w' hi _ _ _ => ?_
      refine (ih.enter (.block hi) sound placed).imp fun c t _ hc => ?_
      exact ⟨hc, fun _ _ => .nil⟩
  | ifElse test thenBranch elseBranch =>
      refine .bind (ih.enter .branchTest sound placed) fun b w' hb sound' _ _ => ?_
      cases b with
      | true =>
          refine (ih.enter (.thenBranch hb) sound placed).imp fun c t _ hc => ?_
          exact ⟨hc.1, fun _ _ => placed.declares_ifElse⟩
      | false =>
          cases elseBranch with
          | none => exact .ok sound' ⟨trivial, fun _ _ => placed.declares_ifElse⟩
          | some branch =>
              refine (ih.enter (.elseBranch hb) sound placed).imp fun c t _ hc => ?_
              exact ⟨hc.1, fun _ _ => placed.declares_ifElse⟩
  | whileLoop test body =>
      refine (ih.enter .loop sound placed).imp fun c t _ hc => ?_
      exact ⟨hc, fun _ _ => placed.declares_whileLoop⟩
  | function f => exact function_safe f scope w sound placed
  | ret value =>
      cases value with
      | none => exact .ok sound ⟨trivial, fun _ _ => .nil⟩
      | some e =>
          refine .bind (ih.enter .returned sound placed) fun v w' _ sound' grows' hv => ?_
          have hvalid : Γ.Valid w'.store v := Setting.Evaluated.valid hv (placed.ret.mono grows')
          exact .ok sound' ⟨hvalid, fun _ _ => .nil⟩
  | classDecl name methods => exact classDecl_safe name methods scope w sound placed

/-- Every task that fits its store leaves a sound store behind. -/
theorem run_safe (Γ : Setting) {find : Finder} (honest : find.Honest) (n : Nat) :
    RunsSafe Γ find n := by
  induction n with
  | zero =>
      intro t w sound _
      cases t with
      | call callee args => cases callee <;> exact .outOfFuel sound
      | _ => exact .outOfFuel sound
  | succ n ih =>
      intro t w sound fits
      cases t with
      | expr e scope => exact expr_safe honest ih e scope w sound fits
      | exprs es scope => exact exprs_safe ih es scope w sound fits
      | operand op e scope =>
          refine .bind (ih.enter .truth sound fits) fun v w' _ sound' _ _ => ?_
          cases v with
          | bool b => exact .ok sound' trivial
          | _ => exact .fail sound' (by simp)
      | condition e scope =>
          refine .bind (ih.enter .test sound fits) fun v w' _ sound' _ _ => ?_
          cases v with
          | bool b => exact .ok sound' trivial
          | _ => exact .fail sound' (by simp)
      | call callee args => exact call_safe ih callee args w sound fits
      | callClosure c args => exact callClosure_safe ih c args w sound fits
      | stmt st scope => exact stmt_safe honest ih st scope w sound fits
      | stmts ss scope =>
          cases ss with
          | nil => exact .ok sound trivial
          | cons st rest =>
              refine .bind (ih.enter .head sound fits) fun c w' hc sound' _ hdone => ?_
              cases c with
              | returned value => exact .ok sound' hdone.1
              | normal value => exact ih.enter (.tail hc) sound fits
      | loop test body scope =>
          refine .bind (ih.enter .loopTest sound fits) fun b w' hb sound' _ _ => ?_
          cases b with
          | false => exact .ok sound' trivial
          | true =>
              refine .bind (ih.enter (.loopBody hb) sound fits) fun c w'' hc sound'' _ hdone => ?_
              cases c with
              | returned value => exact .ok sound'' hdone.1
              | normal value => exact ih.enter (.again hb hc) sound fits

/-! ### References -/

theorem Looks.referred (safe : RunsSafe Γ find n) {t : Task} {w : World} {v : Visit}
    (looks : Looks find n t w v) (sound : Γ.Sound w.store) (fits : t.Fits Γ w.store) :
    Γ.Sound v.world.store ∧ Γ.Referred v.world.store v.scope v.name v.id := by
  cases looks with
  | var => exact ⟨sound, Setting.ExprPlaced.var fits⟩
  | this => exact ⟨sound, Setting.ExprPlaced.this fits⟩
  | update => exact ⟨sound, Setting.StmtPlaced.update fits⟩
  | assign => exact ⟨sound, (Setting.StmtPlaced.assign fits).2⟩
  | @assigned target e scope _ _ _ done =>
      obtain ⟨he, htarget⟩ := Setting.StmtPlaced.assign fits
      obtain ⟨sound', grows, _⟩ := (safe (.expr e scope) w sound he.fits).of_eq_ok done
      exact ⟨sound', htarget.mono grows⟩

/-- Every reference that is visited is placed in the scope in which it is evaluated. -/
theorem Visits.referred (honest : find.Honest) {t : Task} {w : World} {v : Visit}
    (visits : Visits find n t w v) (sound : Γ.Sound w.store) (fits : t.Fits Γ w.store) :
    Γ.Sound v.world.store ∧ Γ.Referred v.world.store v.scope v.name v.id := by
  induction visits with
  | here looks => exact looks.referred (run_safe Γ honest _) sound fits
  | inside entered _ ih =>
      obtain ⟨sound', _, fits'⟩ := enters_fits (run_safe Γ honest _) entered sound fits
      exact ih sound' fits'

end Evaluate.Task

/-! ### Whole programs -/

/-- The statements of a program are placed at the top level, whatever the store is. No scope of their own
    stands between them and the globals, so there is nothing to be supplied. -/
theorem Setting.StmtPlaced.of_mem {Γ : Setting} {p : Program} (hp : p ∈ Γ.programs) {a : Annotations}
    (accepted : resolve p = .ok a) (careful : Γ.strict → p.every (Stmt.careful a) = true)
    {node : Located Stmt} (hnode : node ∈ p) (s : Store) :
    Γ.StmtPlaced s Γ.globals node.value := by
  obtain ⟨before, after, rfl⟩ := List.append_of_mem hnode
  have hsplit : Program.steps (before ++ node :: after)
      = Program.steps before ++ (node.value.steps ++ Program.steps after) :=
    Program.steps_append before (node :: after)
  obtain ⟨last, hlast, _⟩ := (resolve_eq_ok_iff _ a).1 accepted
  rw [hsplit] at hlast
  obtain ⟨names, hnames, _⟩ := Step.runAll_append_eq_ok.1 hlast
  have hmeets : Step.Meets (Program.steps (before ++ node :: after)) node.value.steps names [] := by
    apply Step.Meets.first (b := Program.steps after)
    apply Step.Meets.next _ hnames
    rw [← hsplit]
    exact .start
  refine ⟨a, names, [], ⟨_, hp, accepted, hmeets⟩, .top, fun strict => ⟨?_, ?_⟩⟩
  · have hevery := careful strict
    rw [Program.every, List.all_eq_true] at hevery
    exact hevery node hnode
  · intro r _ k table _ htable _
    have hnone : names.locals = [] := List.eq_nil_of_length_eq_zero hmeets.length_regions.symm
    rw [hnone] at htable
    cases htable

namespace Evaluate

variable {Γ : Setting} {find : Finder} {fuel : Nat}

/-- A program leaves a sound store behind, also where it fails. -/
theorem program_safe (fuel : Nat) (honest : find.Honest) {p : Program} {w : World} (sound : Γ.Sound w.store)
    (placed : ∀ node ∈ p, ∀ s, Γ.StmtPlaced s Γ.globals node.value) :
    match program find fuel Γ.globals p w with
    | .ok _ w' => Γ.Sound w'.store
    | .error e w' => Γ.Sound w'.store ∧
      ∀ name id, e.value = .failed (.undefinedVariable name id) → Γ.Missed find name id := by
  induction p generalizing w with
  | nil => exact sound
  | cons node rest ih =>
      have hnode := Task.run_safe Γ honest fuel (.stmt node.value Γ.globals) w sound
        (placed node List.mem_cons_self w.store)
      simp only [Task.run] at hnode
      rw [program_cons]
      cases hs : stmt find fuel node.value Γ.globals w with
      | error e w' =>
          rw [hs] at hnode
          exact ⟨hnode.1, hnode.2.2⟩
      | ok c w' =>
          rw [hs] at hnode
          have hrest := ih hnode.1 fun other hother => placed other (List.mem_cons_of_mem _ hother)
          simp only
          cases hp : program find fuel Γ.globals rest w' with
          | error e w'' =>
              rw [hp] at hrest
              exact hrest
          | ok values w'' =>
              rw [hp] at hrest
              exact hrest

/-- Every reference that a program visits is placed in the scope in which it is evaluated. -/
theorem ProgramVisits.referred (honest : find.Honest) {p : Program} {w : World} {v : Visit}
    (visits : ProgramVisits find fuel Γ.globals p w v) (sound : Γ.Sound w.store)
    (placed : ∀ node ∈ p, ∀ s, Γ.StmtPlaced s Γ.globals node.value) :
    Γ.Sound v.world.store ∧ Γ.Referred v.world.store v.scope v.name v.id := by
  induction visits with
  | here h => exact h.referred honest sound (placed _ List.mem_cons_self _)
  | @later node rest w w' c v done _ ih =>
      obtain ⟨sound', _⟩ := (Task.run_safe Γ honest fuel (.stmt node.value Γ.globals) w sound
        (placed node List.mem_cons_self w.store)).of_eq_ok done
      exact ih sound' fun other hother => placed other (List.mem_cons_of_mem _ hother)

end Evaluate

end Kiln
