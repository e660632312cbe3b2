/-
Module: Kiln.Proofs.Receivers.Freshness
Purpose: Every binding opens a scope of its own. Scopes are never given back, so whatever happens later opens
  scopes with higher numbers. A step is described by the bindings that are made in its course: their scopes
  are among those that it has added, and no two of them have the same one.
Main exports: Apart, Apart.bind, Task.run_apart, program_apart
-/
import Kiln.Proofs.Receivers.Runs

namespace Kiln.Evaluate

open Eval

/-- How many scopes there are. -/
def scopeCount (w : World) : Nat := w.store.scopes.size

/-- From the first world to the second scopes have been added at most. The bindings that were made meanwhile
    belong to different ones of these. -/
structure Apart (made : Binding → Prop) (w w' : World) : Prop where
  grows : scopeCount w ≤ scopeCount w'
  range : ∀ b, made b → scopeCount w ≤ b.scope.index ∧ b.scope.index < scopeCount w'
  unique : ∀ b b', made b → made b' → b.scope = b'.scope → b = b'

/-- Nothing is bound. -/
def NoBinding : Binding → Prop := fun _ => False

namespace Apart

variable {ε α β : Type} {made made' first second : Binding → Prop} {w w' w'' : World}

theorem silent (grows : scopeCount w ≤ scopeCount w') : Apart NoBinding w w' :=
  ⟨grows, fun _ hb => hb.elim, fun _ _ hb => hb.elim⟩

theorem refl : Apart NoBinding w w := silent (Nat.le_refl _)

theorem mono (h : Apart made' w w') (sub : ∀ b, made b → made' b) : Apart made w w' :=
  ⟨h.grows, fun b hb => h.range b (sub b hb), fun b b' hb hb' => h.unique b b' (sub b hb) (sub b' hb')⟩

/-- What is bound later has a higher number than what was bound before. -/
theorem append (h : Apart first w w') (h' : Apart second w' w'') :
    Apart (fun b => first b ∨ second b) w w'' where
  grows := Nat.le_trans h.grows h'.grows
  range b hb := by
    rcases hb with hb | hb
    · exact ⟨(h.range b hb).1, Nat.lt_of_lt_of_le (h.range b hb).2 h'.grows⟩
    · exact ⟨Nat.le_trans h.grows (h'.range b hb).1, (h'.range b hb).2⟩
  unique b b' hb hb' hsame := by
    have below : ∀ c c', first c → second c' → c.scope ≠ c'.scope := by
      intro c c' hc hc' heq
      have hlt := (h.range c hc).2
      rw [heq] at hlt
      exact Nat.not_le_of_lt hlt (h'.range c' hc').1
    rcases hb with hb | hb
    · rcases hb' with hb' | hb'
      · exact h.unique b b' hb hb' hsame
      · exact absurd hsame (below b b' hb hb')
    · rcases hb' with hb' | hb'
      · exact absurd hsame.symm (below b' b hb' hb)
      · exact h'.unique b b' hb hb' hsame

/-- One thing after the other. -/
theorem bind {p : EStateM ε World α} {f : α → EStateM ε World β} {next : α → World → Binding → Prop}
    (hp : Apart first w (outcomeWorld (p w)))
    (hf : ∀ a w', p w = .ok a w' → Apart (next a w') w' (outcomeWorld (f a w'))) :
    Apart (fun b => first b ∨ ∃ a w', p w = .ok a w' ∧ next a w' b) w (outcomeWorld ((p >>= f) w)) := by
  cases hrun : p w with
  | error e w' =>
      rw [hrun] at hp
      rw [Eval.bind_of_error hrun]
      apply hp.mono
      intro b hb
      rcases hb with hb | ⟨a, w'', hok, _⟩
      · exact hb
      · cases hok
  | ok a w' =>
      have hsecond := hf a w' hrun
      rw [hrun] at hp
      rw [Eval.bind_of_ok hrun]
      apply (hp.append hsecond).mono
      intro b hb
      rcases hb with hb | ⟨c, w'', hsame, hb⟩
      · exact .inl hb
      · cases hsame
        exact .inr hb

/-- Something before a rest that binds nothing. -/
theorem andThen {p : EStateM ε World α} {f : α → EStateM ε World β} (hp : Apart made w (outcomeWorld (p w)))
    (hf : ∀ a w', p w = .ok a w' → Apart NoBinding w' (outcomeWorld (f a w'))) :
    Apart made w (outcomeWorld ((p >>= f) w)) :=
  (hp.bind hf).mono fun _ => .inl

/-- Something after a beginning that binds nothing. -/
theorem following {p : EStateM ε World α} {f : α → EStateM ε World β} {next : α → World → Binding → Prop}
    (hp : Apart NoBinding w (outcomeWorld (p w)))
    (hf : ∀ a w', p w = .ok a w' → Apart (next a w') w' (outcomeWorld (f a w'))) :
    Apart (fun b => ∃ a w', p w = .ok a w' ∧ next a w' b) w (outcomeWorld ((p >>= f) w)) :=
  (hp.bind hf).mono fun _ => .inr

/-! ### Steps of evaluation -/

theorem of_grows (grows : w.store.Grows w'.store) : Apart NoBinding w w' := silent grows.size_le

theorem read (find : Finder) (scope : ScopeId) (name : String) (id : NodeId) :
    Apart NoBinding w (outcomeWorld (Eval.read find scope name id w)) := by
  unfold Eval.read
  split
  · exact refl
  · exact refl

theorem write (find : Finder) (scope : ScopeId) (target : Variable) (value : Value) :
    Apart NoBinding w (outcomeWorld (Eval.write find scope target value w)) := by
  unfold Eval.write
  split
  · exact of_grows (.put _ _ _ _)
  · exact refl

theorem define (scope : ScopeId) (name : String) (value : Value) :
    Apart NoBinding w (outcomeWorld (Eval.define scope name value w)) :=
  of_grows (.put w.store scope name value)

theorem defineAll (scope : ScopeId) (cells : List (String × Value)) :
    Apart NoBinding w (outcomeWorld (Eval.defineAll scope cells w)) := by
  induction cells generalizing w with
  | nil => exact refl
  | cons c rest ih => exact (define scope c.1 c.2).andThen fun _ _ _ => ih

theorem newScope (origin : Origin) (parent : ScopeId) :
    Apart NoBinding w (outcomeWorld (Eval.newScope origin parent w)) :=
  of_grows (.newScope w.store origin (some parent))

theorem newIdentity : Apart NoBinding w (outcomeWorld (Eval.newIdentity w)) := of_grows (.newIdentity w.store)

theorem newObject : Apart NoBinding w (outcomeWorld (Eval.newObject w)) := of_grows (.newObject w.store)

theorem setField (object : ObjectId) (name : String) (value : Value) :
    Apart NoBinding w (outcomeWorld (Eval.setField object name value w)) :=
  of_grows (.setField w.store object name value)

theorem newClosure (f : Function) (scope : ScopeId) :
    Apart NoBinding w (outcomeWorld (Eval.newClosure f scope w)) :=
  newIdentity.andThen fun _ _ _ => refl

theorem ofExcept (r : Except RuntimeError Value) : Apart NoBinding w (outcomeWorld (Eval.ofExcept r w)) := by
  cases r with
  | ok v => exact refl
  | error cause => exact refl

theorem callBuiltin (f : Builtin) (args : List Value) :
    Apart NoBinding w (outcomeWorld (Eval.callBuiltin f args w)) := by
  cases f with
  | print =>
      have hemit : ∀ function text, Apart NoBinding w (outcomeWorld (Eval.emit function text w)) := by
        intro function text
        simp only [Eval.emit]
        split
        · exact silent (Nat.le_refl _)
        · exact silent (Nat.le_refl _)
      exact (hemit _ _).andThen fun _ _ _ => refl

/-- Binding a method makes one binding, in a scope that is added for it. -/
theorem bindMethod (c : Class) (object : ObjectId) (m : Function) :
    Apart (fun b => ∃ closure w', Eval.bind c m (.object c object) w = .ok closure w' ∧
      b = ⟨c, object, m, closure.scope⟩) w (outcomeWorld (Eval.bind c m (.object c object) w)) where
  grows := by
    have hopened := Store.Grows.newScope w.store (.binding m) (some c.scope)
    exact (hopened.trans (.put _ ⟨w.store.scopes.size⟩ "this" (.object c object))).size_le
  range b hb := by
    obtain ⟨closure, w', hdone, rfl⟩ := hb
    cases hdone
    have hopened : w.store.scopes.size < (w.store.newScope (.binding m) (some c.scope)).2.scopes.size := by
      simp [Store.newScope]
    have hput := Store.Grows.put (w.store.newScope (.binding m) (some c.scope)).2 ⟨w.store.scopes.size⟩ "this"
      (.object c object)
    exact ⟨Nat.le_refl _, Nat.lt_of_lt_of_le hopened hput.size_le⟩
  unique b b' hb hb' _ := by
    obtain ⟨closure, w', hdone, rfl⟩ := hb
    obtain ⟨closure', w'', hdone', rfl⟩ := hb'
    cases hdone.symm.trans hdone'
    rfl

/-- The binding that taking a member of a value makes. -/
def OfMember (value : Value) (name : String) (w : World) (b : Binding) : Prop :=
  ∃ c object m closure w', value = .object c object ∧ (w.store.fields object)[name]? = none ∧
    c.methods[name]? = some m ∧ Eval.bind c m (.object c object) w = .ok closure w' ∧
    b = ⟨c, object, m, closure.scope⟩

theorem property (value : Value) (name : String) :
    Apart (OfMember value name w) w (outcomeWorld (Eval.property value name w)) := by
  cases value with
  | object c object =>
      rw [Eval.property, Eval.get_bind]
      cases hfield : (w.store.fields object)[name]? with
      | some value =>
          apply refl.mono
          rintro b ⟨_, _, _, _, _, hobject, hnone, _⟩
          cases hobject
          cases hfield.symm.trans hnone
      | none =>
          cases hmethod : c.methods[name]? with
          | none =>
              apply refl.mono
              rintro b ⟨_, _, _, _, _, hobject, _, hknown, _⟩
              cases hobject
              cases hmethod.symm.trans hknown
          | some m =>
              apply ((bindMethod c object m).andThen fun _ _ _ => refl).mono
              rintro b ⟨_, _, _, closure, w', hobject, _, hknown, hdone, rfl⟩
              cases hobject
              cases hmethod.symm.trans hknown
              exact ⟨closure, w', hdone, rfl⟩
  | _ =>
      apply refl.mono
      rintro b ⟨_, _, _, _, _, hobject, _⟩
      cases hobject

end Apart

/-! ### Tasks -/

namespace Task

variable {find : Finder} {n : Nat} {t : Task} {w : World}

theorem not_binds_zero {b : Binding} : ¬ Binds find 0 t w b := by
  rintro ⟨m, u, v, hreaches, _⟩
  cases hreaches

/-- A binding is made by the task itself or by one that it enters. -/
theorem Binds.here_or_inside {b : Binding} (h : Binds find (n + 1) t w b) :
    BindsHere find n t w b ∨ ∃ t' w', Enters find n t w t' w' ∧ Binds find n t' w' b := by
  obtain ⟨m, u, v, hreaches, hbinds⟩ := h
  cases hreaches with
  | here => exact .inl hbinds
  | inside entered hrest => exact .inr ⟨_, _, entered, m, u, v, hrest, hbinds⟩

/-- What is to be shown of each bound. -/
def RunsApart (find : Finder) (n : Nat) : Prop :=
  ∀ t w, Apart (Binds find n t w) w (outcomeWorld (t.run find n w))

/-- The bindings of a task are covered by its own and by those of the tasks that it enters. -/
theorem covering {made : Binding → Prop} {w' : World} (h : Apart made w w')
    (here : ∀ b, BindsHere find n t w b → made b)
    (inside : ∀ t' w' b, Enters find n t w t' w' → Binds find n t' w' b → made b) :
    Apart (Binds find (n + 1) t w) w w' := by
  apply h.mono
  intro b hb
  rcases hb.here_or_inside with hhere | ⟨t', w', entered, hinside⟩
  · exact here b hhere
  · exact inside t' w' b entered hinside

theorem expr_apart (ih : RunsApart find n) (e : Expr) (scope : ScopeId) (w : World) :
    Apart (Binds find (n + 1) (.expr e scope) w) w
      (outcomeWorld (Evaluate.expr find (n + 1) e scope w)) := by
  cases e with
  | number value | text value | bool value =>
      exact covering (.refl) (fun _ h => by cases h) fun _ _ _ h => by cases h
  | var name id | this id =>
      exact covering (.read find scope _ _) (fun _ h => by cases h) fun _ _ _ h => by cases h
  | lambda f =>
      have hmade : Apart NoBinding w (outcomeWorld (Evaluate.expr find (n + 1) (.lambda f) scope w)) :=
        (Apart.newClosure f scope).andThen fun _ _ _ => .refl
      exact covering hmade (fun _ h => by cases h) fun _ _ _ h => by cases h
  | binary op l r =>
      apply covering
      · apply Apart.bind (ih (.expr l scope) w)
        intro a w' _
        apply Apart.andThen (ih (.expr r scope) w')
        intro b w'' _
        exact .ofExcept _
      · intro b h
        cases h
      · intro t' w' b entered h
        cases entered with
        | left => exact .inl h
        | right done => exact .inr ⟨_, _, done, h⟩
  | logical op l r =>
      apply covering
      · apply Apart.bind (ih (.operand op l scope) w)
        intro a w' _
        change Apart (fun b => isDecided op a = false ∧ Binds find n (.operand op r scope) w' b) w' _
        cases hd : isDecided op a with
        | true =>
            simp only [if_true]
            exact Apart.refl.mono fun b hb => by cases hb.1
        | false =>
            simp only [Bool.false_eq_true, if_false]
            apply Apart.mono
            · exact Apart.andThen (ih (.operand op r scope) w') fun _ _ _ => .refl
            · exact fun b hb => hb.2
      · intro b h
        cases h
      · intro t' w' b entered h
        cases entered with
        | firstOperand => exact .inl h
        | secondOperand done undecided => exact .inr ⟨_, _, done, undecided, h⟩
  | unary op e =>
      apply covering
      · apply Apart.andThen (ih (.expr e scope) w)
        intro a w' _
        exact .ofExcept _
      · intro b h
        cases h
      · intro t' w' b entered h
        cases entered with
        | operand => exact h
  | member e name =>
      apply covering
      · apply Apart.bind (ih (.expr e scope) w)
        intro value w' _
        exact .property value name
      · intro b h
        cases h with
        | member receiver unhidden known done =>
            exact .inr ⟨_, _, receiver, _, _, _, _, _, rfl, unhidden, known, done, rfl⟩
      · intro t' w' b entered h
        cases entered with
        | object => exact .inl h
  | call e args =>
      apply covering
      · apply Apart.bind (ih (.expr e scope) w)
        intro f w' _
        apply Apart.bind (ih (.exprs args scope) w')
        intro values w'' _
        exact ih (.call f values) w''
      · intro b h
        cases h
      · intro t' w' b entered h
        cases entered with
        | callee => exact .inl h
        | args done => exact .inr ⟨_, _, done, .inl h⟩
        | call done done' => exact .inr ⟨_, _, done, .inr ⟨_, _, done', h⟩⟩

theorem exprs_apart (ih : RunsApart find n) (es : List Expr) (scope : ScopeId) (w : World) :
    Apart (Binds find (n + 1) (.exprs es scope) w) w
      (outcomeWorld (Evaluate.exprs find (n + 1) es scope w)) := by
  cases es with
  | nil => exact covering (.refl) (fun _ h => by cases h) fun _ _ _ h => by cases h
  | cons e rest =>
      apply covering
      · apply Apart.bind (ih (.expr e scope) w)
        intro a w' _
        apply Apart.andThen (ih (.exprs rest scope) w')
        intro values w'' _
        exact .refl
      · intro b h
        cases h
      · intro t' w' b entered h
        cases entered with
        | first => exact .inl h
        | rest done => exact .inr ⟨_, _, done, h⟩

/-- The binding for `init` comes before those that are made while it runs. -/
theorem call_apart (ih : RunsApart find n) (callee : Value) (args : List Value) (w : World) :
    Apart (Binds find (n + 1) (.call callee args) w) w
      (outcomeWorld (Evaluate.call find (n + 1) callee args w)) := by
  cases callee with
  | closure c =>
      apply covering (ih (.callClosure c args) w)
      · intro b h
        cases h
      · intro t' w' b entered h
        cases entered with
        | closure => exact h
  | classValue c =>
      cases hm : c.methods["init"]? with
      | none =>
          apply covering
          · apply Apart.andThen Apart.newObject
            intro object w' _
            simp only [hm]
            split
            · exact .refl
            · exact .refl
          · intro b h
            cases h with
            | init known _ _ => cases hm.symm.trans known
          · intro t' w' b entered _
            cases entered with
            | init known _ _ => cases hm.symm.trans known
      | some method =>
          apply covering
          · apply Apart.following Apart.newObject
            intro object w' _
            simp only [hm]
            apply Apart.bind (.bindMethod c object method)
            intro closure w'' _
            apply Apart.andThen (ih (.callClosure closure args) w'')
            intro _ _ _
            exact .refl
          · intro b h
            cases h with
            | init known created done =>
                cases hm.symm.trans known
                exact ⟨_, _, created, .inl ⟨_, _, done, rfl⟩⟩
          · intro t' w' b entered h
            cases entered with
            | init known created done =>
                cases hm.symm.trans known
                exact ⟨_, _, created, .inr ⟨_, _, done, h⟩⟩
  | builtin f identity =>
      exact covering (.callBuiltin f args) (fun _ h => by cases h) fun _ _ _ h => by cases h
  | _ => exact covering (.refl) (fun _ h => by cases h) fun _ _ _ h => by cases h

theorem callClosure_apart (ih : RunsApart find n) (c : Closure) (args : List Value) (w : World) :
    Apart (Binds find (n + 1) (.callClosure c args) w) w
      (outcomeWorld (Evaluate.callClosure find (n + 1) c args w)) := by
  simp only [Evaluate.callClosure]
  split
  · next harity =>
    apply covering (.refl)
    · intro b h
      cases h
    · intro t' w' b entered _
      cases entered with
      | body arity _ _ => exact absurd arity harity
  · apply covering
    · apply Apart.following (.newScope _ _)
      intro scope w' _
      apply Apart.following (.defineAll scope _)
      intro _ w'' _
      apply Apart.andThen (ih (.stmts c.function.body scope) w'')
      intro completion w₃ _
      cases completion with
      | returned value => exact .refl
      | normal value => exact .refl
    · intro b h
      cases h
    · intro t' w' b entered h
      cases entered with
      | body _ opened done => exact ⟨_, _, opened, _, _, done, h⟩

/-- No statement binds a method by itself. -/
theorem covering_stmt {made : Binding → Prop} {w' : World} {st : Stmt} {scope : ScopeId} (h : Apart made w w')
    (inside : ∀ t' w' b, Enters find n (.stmt st scope) w t' w' → Binds find n t' w' b → made b) :
    Apart (Binds find (n + 1) (.stmt st scope) w) w w' :=
  covering h (fun _ h => by cases h) inside

theorem ifElse_apart (ih : RunsApart find n) (test : Expr) (thenBranch : Stmt) (elseBranch : Option Stmt)
    (scope : ScopeId) (w : World) :
    Apart (Binds find (n + 1) (.stmt (.ifElse test thenBranch elseBranch) scope) w) w
      (outcomeWorld (Evaluate.stmt find (n + 1) (.ifElse test thenBranch elseBranch) scope w)) := by
  apply covering_stmt
  · apply Apart.bind (ih (.condition test scope) w)
    intro a w' _
    change Apart (fun b => a = true ∧ Binds find n (.stmt thenBranch scope) w' b ∨
      ∃ branch, elseBranch = some branch ∧ a = false ∧ Binds find n (.stmt branch scope) w' b) w' _
    cases a with
    | true =>
        apply Apart.mono (ih (.stmt thenBranch scope) w')
        rintro b (⟨_, hb⟩ | ⟨_, _, hfalse, _⟩)
        · exact hb
        · cases hfalse
    | false =>
        cases elseBranch with
        | none =>
            apply Apart.refl.mono
            rintro b (⟨htrue, _⟩ | ⟨_, hnone, _⟩)
            · cases htrue
            · cases hnone
        | some branch =>
            apply Apart.mono (ih (.stmt branch scope) w')
            rintro b (⟨htrue, _⟩ | ⟨_, hbranch, _, hb⟩)
            · cases htrue
            · cases hbranch
              exact hb
  · intro t' w' b entered h
    cases entered with
    | branchTest => exact .inl h
    | thenBranch done => exact .inr ⟨_, _, done, .inl ⟨rfl, h⟩⟩
    | elseBranch done => exact .inr ⟨_, _, done, .inr ⟨_, rfl, rfl, h⟩⟩

theorem stmt_apart (ih : RunsApart find n) (st : Stmt) (scope : ScopeId) (w : World) :
    Apart (Binds find (n + 1) (.stmt st scope) w) w
      (outcomeWorld (Evaluate.stmt find (n + 1) st scope w)) := by
  cases st with
  | expr e =>
      apply covering_stmt ((ih (.expr e scope) w).andThen fun _ _ _ => .refl)
      intro t' w' b entered h
      cases entered with
      | value => exact h
  | declare name e =>
      apply covering_stmt
      · apply Apart.andThen (ih (.expr e scope) w)
        intro value w' _
        exact (Apart.define scope name value).andThen fun _ _ _ => .refl
      · intro t' w' b entered h
        cases entered with
        | initial => exact h
  | assign target e =>
      apply covering_stmt
      · apply Apart.andThen (ih (.expr e scope) w)
        intro value w' _
        exact (Apart.write find scope target value).andThen fun _ _ _ => .refl
      · intro t' w' b entered h
        cases entered with
        | assigned => exact h
  | update target op =>
      apply covering_stmt
      · apply Apart.andThen (.read find scope target.name target.id)
        intro old w' _
        apply Apart.andThen (.ofExcept _)
        intro new w'' _
        exact (Apart.write find scope target new).andThen fun _ _ _ => .refl
      · intro t' w' b entered
        cases entered
  | setMember object name e =>
      apply covering_stmt
      · apply Apart.bind (ih (.expr object scope) w)
        intro value w' _
        change Apart (fun b => ∃ c id, value = .object c id ∧ Binds find n (.expr e scope) w' b) w' _
        cases value with
        | object c id =>
            apply Apart.mono
            · apply Apart.andThen (ih (.expr e scope) w')
              intro v w'' _
              exact (Apart.setField id name v).andThen fun _ _ _ => .refl
            · rintro b ⟨_, _, _, hb⟩
              exact hb
        | _ =>
            apply Apart.refl.mono
            rintro b ⟨_, _, hobject, _⟩
            cases hobject
      · intro t' w' b entered h
        cases entered with
        | owner => exact .inl h
        | field done => exact .inr ⟨_, _, done, _, _, rfl, h⟩
  | block body =>
      apply covering_stmt
      · apply Apart.following (.newScope _ _)
        intro inner w' _
        exact ih (.stmts body inner) w'
      · intro t' w' b entered h
        cases entered with
        | block opened => exact ⟨_, _, opened, h⟩
  | ifElse test thenBranch elseBranch => exact ifElse_apart ih test thenBranch elseBranch scope w
  | whileLoop test body =>
      apply covering_stmt (ih (.loop test body scope) w)
      intro t' w' b entered h
      cases entered with
      | loop => exact h
  | function f =>
      apply covering_stmt
      · apply Apart.andThen (.newClosure f scope)
        intro c w' _
        exact (Apart.define scope f.displayName (.closure c)).andThen fun _ _ _ => .refl
      · intro t' w' b entered
        cases entered
  | ret value =>
      cases value with
      | none =>
          apply covering_stmt (.refl)
          intro t' w' b entered
          cases entered
      | some e =>
          apply covering_stmt ((ih (.expr e scope) w).andThen fun _ _ _ => .refl)
          intro t' w' b entered h
          cases entered with
          | returned => exact h
  | classDecl name methods =>
      apply covering_stmt
      · apply Apart.andThen (.define scope name .void)
        intro _ w₁ _
        apply Apart.andThen Apart.newIdentity
        intro identity w₂ _
        exact (Apart.define scope name _).andThen fun _ _ _ => .refl
      · intro t' w' b entered
        cases entered

theorem stmts_apart (ih : RunsApart find n) (ss : List Stmt) (scope : ScopeId) (w : World) :
    Apart (Binds find (n + 1) (.stmts ss scope) w) w
      (outcomeWorld (Evaluate.stmts find (n + 1) ss scope w)) := by
  cases ss with
  | nil => exact covering (.refl) (fun _ h => by cases h) fun _ _ _ h => by cases h
  | cons st rest =>
      apply covering
      · apply Apart.bind (ih (.stmt st scope) w)
        intro c w' _
        change Apart (fun b => ∃ v, c = .normal v ∧ Binds find n (.stmts rest scope) w' b) w' _
        cases c with
        | returned value =>
            apply Apart.refl.mono
            rintro b ⟨_, hnormal, _⟩
            cases hnormal
        | normal value =>
            apply (ih (.stmts rest scope) w').mono
            rintro b ⟨_, _, hb⟩
            exact hb
      · intro b h
        cases h
      · intro t' w' b entered h
        cases entered with
        | head => exact .inl h
        | tail done => exact .inr ⟨_, _, done, _, rfl, h⟩

theorem loop_apart (ih : RunsApart find n) (test : Expr) (body : Stmt) (scope : ScopeId) (w : World) :
    Apart (Binds find (n + 1) (.loop test body scope) w) w
      (outcomeWorld (Evaluate.loop find (n + 1) test body scope w)) := by
  apply covering
  · apply Apart.bind (ih (.condition test scope) w)
    intro a w' _
    change Apart (fun b => a = true ∧ (Binds find n (.stmt body scope) w' b ∨
      ∃ c w'', Evaluate.stmt find n body scope w' = .ok c w'' ∧ ∃ v, c = .normal v ∧
        Binds find n (.loop test body scope) w'' b)) w' _
    cases a with
    | false => exact Apart.refl.mono fun b hb => by cases hb.1
    | true =>
        apply Apart.mono
        · apply Apart.bind (ih (.stmt body scope) w')
          intro c w'' _
          change Apart (fun b => ∃ v, c = .normal v ∧ Binds find n (.loop test body scope) w'' b) w'' _
          cases c with
          | returned value =>
              apply Apart.refl.mono
              rintro b ⟨_, hnormal, _⟩
              cases hnormal
          | normal value =>
              apply (ih (.loop test body scope) w'').mono
              rintro b ⟨_, _, hb⟩
              exact hb
        · exact fun b hb => hb.2
  · intro b h
    cases h
  · intro t' w' b entered h
    cases entered with
    | loopTest => exact .inl h
    | loopBody done => exact .inr ⟨_, _, done, rfl, .inl h⟩
    | again done done' => exact .inr ⟨_, _, done, rfl, .inr ⟨_, _, done', _, rfl, h⟩⟩

/-- No two bindings that are made in the course of a task have the same scope. -/
theorem run_apart (find : Finder) (n : Nat) : RunsApart find n := by
  induction n with
  | zero =>
      intro t w
      have hnone : ∀ b, Binds find 0 t w b → NoBinding b := fun b hb => not_binds_zero hb
      cases t with
      | call callee args => cases callee <;> exact Apart.refl.mono hnone
      | _ => exact Apart.refl.mono hnone
  | succ n ih =>
      intro t w
      cases t with
      | expr e scope => exact expr_apart ih e scope w
      | exprs es scope => exact exprs_apart ih es scope w
      | operand op e scope =>
          apply covering
          · apply Apart.andThen (ih (.expr e scope) w)
            intro v w' _
            cases v with
            | bool b => exact .refl
            | _ => exact .refl
          · intro b h
            cases h
          · intro t' w' b entered h
            cases entered with
            | truth => exact h
      | condition e scope =>
          apply covering
          · apply Apart.andThen (ih (.expr e scope) w)
            intro v w' _
            cases v with
            | bool b => exact .refl
            | _ => exact .refl
          · intro b h
            cases h
          · intro t' w' b entered h
            cases entered with
            | test => exact h
      | call callee args => exact call_apart ih callee args w
      | callClosure c args => exact callClosure_apart ih c args w
      | stmt st scope => exact stmt_apart ih st scope w
      | stmts ss scope => exact stmts_apart ih ss scope w
      | loop test body scope => exact loop_apart ih test body scope w

end Task

/-! ### Whole programs -/

/-- A binding of a program is made by its first statement or later. -/
theorem ProgramBinds.cons {find : Finder} {fuel : Nat} {globals : ScopeId} {node : Located Stmt}
    {rest : Program} {w : World} {b : Binding} (h : ProgramBinds find fuel globals (node :: rest) w b) :
    Task.Binds find fuel (.stmt node.value globals) w b ∨
      ∃ c w', stmt find fuel node.value globals w = .ok c w' ∧ ProgramBinds find fuel globals rest w' b := by
  obtain ⟨m, u, v, hreaches, hbinds⟩ := h
  cases hreaches with
  | here h => exact .inl ⟨m, u, v, h, hbinds⟩
  | later done h => exact .inr ⟨_, _, done, m, u, v, h, hbinds⟩

/-- No two bindings that are made in the course of a program have the same scope. -/
theorem program_apart (find : Finder) (fuel : Nat) (globals : ScopeId) (p : Program) (w : World) :
    Apart (ProgramBinds find fuel globals p w) w
      (outcomeWorld (program find fuel globals p w)) := by
  induction p generalizing w with
  | nil =>
      apply Apart.refl.mono
      rintro b ⟨_, _, _, hreaches, _⟩
      cases hreaches
  | cons node rest ih =>
      have hnode := Task.run_apart find fuel (.stmt node.value globals) w
      simp only [Task.run] at hnode
      rw [program_cons]
      cases hs : stmt find fuel node.value globals w with
      | error e w' =>
          rw [hs] at hnode
          apply hnode.mono
          intro b hb
          rcases hb.cons with hb | ⟨c, w'', done, _⟩
          · exact hb
          · cases hs.symm.trans done
      | ok c w' =>
          rw [hs] at hnode
          have hall : Apart (ProgramBinds find fuel globals (node :: rest) w) w
              (outcomeWorld (program find fuel globals rest w')) := by
            apply (hnode.append (ih w')).mono
            intro b hb
            rcases hb.cons with hb | ⟨c, w'', done, hb⟩
            · exact .inl hb
            · cases hs.symm.trans done
              exact .inr hb
          simp only
          cases hp : program find fuel globals rest w' with
          | error e w'' =>
              rw [hp] at hall
              exact hall
          | ok values w'' =>
              rw [hp] at hall
              exact hall

end Kiln.Evaluate
