/-
Module: Kiln.Proofs.Scoping.Balance
Purpose: The scope analysis leaves its names balanced, also where it fails. Every scope that it opens is closed
  again, and a statement can only add to the innermost scope. Within one scope names are declared one at a
  time: a name is ready before the next one is declared there. So wherever the analysis is in a program, each
  open scope has at most one name whose first value is still being computed.
Main exports: Names.scopes, Resolver.final, Names.Balanced, Names.Gains, Step.OneByOne, Step.Passes,
  Scoping.names_stay_balanced
-/
import Kiln.Proofs.Scoping.Retracing

namespace Kiln

open Resolver

/-- The tables of all open scopes, the innermost first and the top level last. -/
def Names.scopes (n : Names) : List NameTable := n.locals ++ [n.topLevel]

/-- The names that a step of the analysis leaves behind, whether it succeeds or fails. -/
def Resolver.final {ε : Type} (step : EStateM ε Names Unit) (n : Names) : Names :=
  match step n with
  | .ok _ m => m
  | .error _ m => m

namespace Names

/-! ### The open scopes -/

theorem scopes_eq_cons (n : Names) : n.scopes = n.innermost :: n.scopes.tail := by
  unfold scopes innermost
  cases n.locals <;> rfl

theorem scopes_mark (n : Names) (name : String) (ready : Bool) :
    (n.mark name ready).scopes = n.innermost.insert name ready :: n.scopes.tail := by
  unfold scopes innermost mark
  cases n.locals <;> rfl

theorem scopes_push (n : Names) : n.push.scopes = ∅ :: n.scopes := rfl

/-- The inside of a region has one more scope. -/
theorem scopes_tail_enter (n : Names) (region : Region) : (n.enter region).scopes.tail = n.scopes := by
  cases region with
  | block => rfl
  | function => rfl
  | methods => rfl

/-- A region closes the scope that its inside had. -/
theorem scopes_leave {n m : Names} (hm : m.locals ≠ []) (region : Region) :
    (n.leave m region).scopes = m.scopes.tail := by
  unfold scopes
  rw [locals_leave, Step.topLevel_leave, List.tail_append_of_ne_nil hm]

/-! ### What stays the same -/

/-- From `n` to `m` nothing is lost, and outside the innermost scope nothing has changed. -/
structure Steady (n m : Names) : Prop where
  outer : m.scopes.tail = n.scopes.tail
  enclosing : m.enclosing = n.enclosing
  recorded : ∀ id, n.found.get? id ≠ none → m.found.get? id ≠ none

namespace Steady

variable {n m k : Names}

theorem refl (n : Names) : n.Steady n := ⟨rfl, rfl, fun _ h => h⟩

theorem trans (h : n.Steady m) (h' : m.Steady k) : n.Steady k where
  outer := h'.outer.trans h.outer
  enclosing := h'.enclosing.trans h.enclosing
  recorded id hid := h'.recorded id (h.recorded id hid)

theorem mark (n : Names) (name : String) (ready : Bool) : n.Steady (n.mark name ready) where
  outer := by rw [scopes_mark, List.tail_cons]
  enclosing := Step.enclosing_mark n name ready
  recorded id hid := by rwa [Step.found_mark]

theorem record (n : Names) (id : NodeId) (distance : Nat) :
    n.Steady { n with found := n.found.record id distance } where
  outer := rfl
  enclosing := rfl
  recorded other hother := by
    rw [Annotations.get?_record]
    split
    · exact Option.some_ne_none distance
    · exact hother

/-- What is steady inside a region leaves all scopes around it as they were. -/
theorem scopes_leave {region : Region} (h : (n.enter region).Steady m) :
    (n.leave m region).scopes = n.scopes := by
  have htail : m.scopes.tail = n.scopes := by rw [h.outer, scopes_tail_enter]
  have hm : m.locals ≠ [] := by
    intro hnil
    have hnone : n.scopes = [] := by
      rw [← htail, scopes, hnil]
      rfl
    rw [scopes_eq_cons] at hnone
    cases hnone
  rw [Names.scopes_leave hm, htail]

theorem leave {region : Region} (h : (n.enter region).Steady m) : n.Steady (n.leave m region) where
  outer := by rw [h.scopes_leave]
  enclosing := by
    cases region with
    | block => exact h.enclosing
    | function => rfl
    | methods => exact h.enclosing.trans (Step.enclosing_mark n.push "this" true)
  recorded id hid := by
    rw [Step.found_leave]
    apply h.recorded
    rwa [Step.found_enter]

end Steady

end Names

namespace Step

variable {n m : Names} {step : Step} {rest steps : List Step}

theorem final_of_ok {p : Resolver Unit} (h : p n = .ok () m) : final p n = m := by
  rw [final, h]

theorem final_of_error {p : Resolver Unit} {e : ResolveError} (h : p n = .error e m) :
    final p n = m := by
  rw [final, h]

theorem final_within (region : Region) (body : List Step) (n : Names) :
    final (Step.within region body).run n = n.leave (final (runAll body) (n.enter region)) region := by
  unfold final
  rw [run_within]
  cases runAll body (n.enter region) <;> rfl

/-- Steps after one that succeeds go on with its names; after one that fails they are not taken. -/
theorem final_runAll_cons (step : Step) (rest : List Step) (n : Names) :
    final (runAll (step :: rest)) n =
      match step.run n with
      | .ok _ k => final (runAll rest) k
      | .error _ k => k := by
  rw [final, runAll]
  simp only [bind, EStateM.bind]
  cases step.run n <;> rfl

/-- A step that opens no scope leaves the names as they were if it fails. -/
theorem run_eq_error (h : ∀ region body, step ≠ .within region body) {e : ResolveError}
    (hrun : step.run n = .error e m) : m = n := by
  cases step with
  | declare name =>
      rw [run_declare] at hrun
      split at hrun <;> cases hrun
      rfl
  | define name => cases hrun
  | refuse name =>
      rw [run_refuse] at hrun
      split at hrun <;> cases hrun
      rfl
  | locate name id =>
      rw [run_locate] at hrun
      cases hrun
  | exit =>
      rw [run_exit] at hrun
      split at hrun <;> cases hrun
      rfl
  | within region body => exact absurd rfl (h region body)

/-- A step that opens no scope and succeeds leaves the names steady. -/
theorem run_steady_of_ok (h : ∀ region body, step ≠ .within region body)
    (hrun : step.run n = .ok () m) : n.Steady m := by
  cases step with
  | declare name =>
      rw [(run_declare_eq_ok.1 hrun).2]
      exact .mark n name false
  | define name =>
      rw [run_define_eq_ok.1 hrun]
      exact .mark n name true
  | refuse name =>
      rw [(run_refuse_eq_ok.1 hrun).2]
      exact .refl n
  | locate name id =>
      rw [run_locate] at hrun
      cases hrun
      split
      · exact .refl n
      · exact .record n id _
  | exit =>
      rw [(run_exit_eq_ok.1 hrun).2]
      exact .refl n
  | within region body => exact absurd rfl (h region body)

theorem final_steady_of_ne (h : ∀ region body, step ≠ .within region body) (n : Names) :
    n.Steady (final step.run n) := by
  cases hrun : step.run n with
  | ok _ m =>
      rw [final_of_ok hrun]
      exact run_steady_of_ok h hrun
  | error e m =>
      rw [final_of_error hrun, run_eq_error h hrun]
      exact .refl n

mutual

/-- A step leaves everything outside the innermost scope as it was, also where it fails. -/
theorem final_run_steady : ∀ (step : Step) (n : Names), n.Steady (final step.run n)
  | .within region body, n => by
      rw [final_within]
      exact (final_runAll_steady body (n.enter region)).leave
  | .declare _, n => final_steady_of_ne (by simp) n
  | .define _, n => final_steady_of_ne (by simp) n
  | .refuse _, n => final_steady_of_ne (by simp) n
  | .locate _ _, n => final_steady_of_ne (by simp) n
  | .exit, n => final_steady_of_ne (by simp) n

/-- Steps leave everything outside the innermost scope as it was, also where they fail. -/
theorem final_runAll_steady : ∀ (steps : List Step) (n : Names), n.Steady (final (runAll steps) n)
  | [], n => .refl n
  | step :: rest, n => by
      have hstep := final_run_steady step n
      rw [final_runAll_cons]
      cases hrun : step.run n with
      | ok _ k =>
          rw [final_of_ok hrun] at hstep
          exact hstep.trans (final_runAll_steady rest k)
      | error e k =>
          rw [final_of_error hrun] at hstep
          exact hstep

end

/-- A step that fails leaves all scopes as they were. -/
theorem scopes_of_run_eq_error {e : ResolveError} (hrun : step.run n = .error e m) :
    m.scopes = n.scopes := by
  by_cases h : ∃ region body, step = .within region body
  · obtain ⟨region, body, rfl⟩ := h
    rw [← final_of_error hrun, final_within]
    exact (final_runAll_steady body (n.enter region)).scopes_leave
  · rw [run_eq_error (fun region body hstep => h ⟨region, body, hstep⟩) hrun]

/-! ### One name at a time -/

/-- Each name is ready before the next one is declared in the same scope, and each declared name becomes ready
    in the end. At the start `pending?` is the one that is not ready. -/
inductive OneByOne : Option String → List Step → Prop where
  | nil : OneByOne none []
  | declare {name : String} {rest : List Step} (h : OneByOne (some name) rest) :
      OneByOne none (.declare name :: rest)
  | define {name : String} {rest : List Step} (h : OneByOne none rest) :
      OneByOne (some name) (.define name :: rest)
  | refuse {pending? : Option String} {name : String} {rest : List Step} (h : OneByOne pending? rest) :
      OneByOne pending? (.refuse name :: rest)
  | locate {pending? : Option String} {name : String} {id : NodeId} {rest : List Step}
      (h : OneByOne pending? rest) : OneByOne pending? (.locate name id :: rest)
  | exit {pending? : Option String} {rest : List Step} (h : OneByOne pending? rest) :
      OneByOne pending? (.exit :: rest)
  | within {pending? : Option String} {region : Region} {body rest : List Step}
      (inside : OneByOne none body) (h : OneByOne pending? rest) :
      OneByOne pending? (.within region body :: rest)

end Step

section

open Step

variable {pending? : Option String} {rest : List Step}

theorem Param.steps_oneByOne (ps : List Param) (h : OneByOne none rest) :
    OneByOne none (Param.steps ps ++ rest) := by
  induction ps with
  | nil => exact h
  | cons p ps ih => exact .declare (.define ih)

mutual

/-- An expression declares no name, so another one may be pending all the time. -/
theorem Expr.steps_oneByOne : ∀ (e : Expr) {pending? : Option String} {rest : List Step},
    OneByOne pending? rest → OneByOne pending? (e.steps ++ rest)
  | .number _, _, _, h => h
  | .text _, _, _, h => h
  | .bool _, _, _, h => h
  | .var _ _, _, _, h => .refuse (.locate h)
  | .this _, _, _, h => .locate h
  | .binary _ left right, _, _, h => by
      rw [Expr.steps, List.append_assoc]
      exact left.steps_oneByOne (right.steps_oneByOne h)
  | .logical _ left right, _, _, h => by
      rw [Expr.steps, List.append_assoc]
      exact left.steps_oneByOne (right.steps_oneByOne h)
  | .unary _ operand, _, _, h => operand.steps_oneByOne h
  | .member object _, _, _, h => object.steps_oneByOne h
  | .call callee args, _, _, h => by
      rw [Expr.steps, List.append_assoc]
      exact callee.steps_oneByOne (Expr.stepsOfAll_oneByOne args h)
  | .lambda f, _, _, h => f.steps_oneByOne h

theorem Expr.stepsOfAll_oneByOne : ∀ (es : List Expr) {pending? : Option String} {rest : List Step},
    OneByOne pending? rest → OneByOne pending? (Expr.stepsOfAll es ++ rest)
  | [], _, _, h => h
  | e :: es, _, _, h => by
      rw [Expr.stepsOfAll, List.append_assoc]
      exact e.steps_oneByOne (Expr.stepsOfAll_oneByOne es h)

/-- A statement leaves no name pending. -/
theorem Stmt.steps_oneByOne : ∀ (s : Stmt) {rest : List Step},
    OneByOne none rest → OneByOne none (s.steps ++ rest)
  | .expr e, _, h => e.steps_oneByOne h
  | .declare name value, _, h => by
      rw [Stmt.steps, List.cons_append, List.append_assoc]
      exact .declare (value.steps_oneByOne (.define h))
  | .assign _ value, _, h => by
      rw [Stmt.steps, List.append_assoc]
      exact value.steps_oneByOne (.locate h)
  | .update _ _, _, h => .locate h
  | .setMember object _ value, _, h => by
      rw [Stmt.steps, List.append_assoc]
      exact object.steps_oneByOne (value.steps_oneByOne h)
  | .block body, _, h => .within (Stmt.stepsOfAll_oneByOne body) h
  | .ifElse test thenBranch none, _, h => by
      rw [Stmt.steps, List.append_assoc]
      exact test.steps_oneByOne (thenBranch.steps_oneByOne h)
  | .ifElse test thenBranch (some elseBranch), _, h => by
      rw [Stmt.steps, List.append_assoc, List.append_assoc]
      exact test.steps_oneByOne (thenBranch.steps_oneByOne (elseBranch.steps_oneByOne h))
  | .whileLoop test body, _, h => by
      rw [Stmt.steps, List.append_assoc]
      exact test.steps_oneByOne (body.steps_oneByOne h)
  | .function f, _, h => .declare (.define (f.steps_oneByOne h))
  | .ret none, _, h => .exit h
  | .ret (some value), _, h => .exit (value.steps_oneByOne h)
  | .classDecl _ methods, _, h =>
      .declare (.define (.within (Function.stepsOfAll_oneByOne methods) h))

theorem Stmt.stepsOfAll_oneByOne : ∀ ss : List Stmt, OneByOne none (Stmt.stepsOfAll ss)
  | [] => .nil
  | s :: ss => s.steps_oneByOne (Stmt.stepsOfAll_oneByOne ss)

theorem Function.steps_oneByOne {kind : FunctionKind} :
    ∀ (f : Function) {pending? : Option String} {rest : List Step},
      OneByOne pending? rest → OneByOne pending? (f.steps kind ++ rest)
  | ⟨_, ps, _, body⟩, _, _, h =>
      .within (Param.steps_oneByOne ps (Stmt.stepsOfAll_oneByOne body)) h

theorem Function.stepsOfAll_oneByOne : ∀ fs : List Function, OneByOne none (Function.stepsOfAll fs)
  | [] => .nil
  | f :: fs => f.steps_oneByOne (Function.stepsOfAll_oneByOne fs)

end

theorem Program.steps_oneByOne (p : Program) : OneByOne none (Program.steps p) := by
  rw [Program.steps_eq]
  exact Stmt.stepsOfAll_oneByOne _

end

/-! ### What becomes of the innermost scope -/

/-- The table `after` has come out of `before`: all names have been kept with their marks, and of the new ones
    only `pending?` is not ready. -/
structure NameTable.Extends (before after : NameTable) (pending? : Option String) : Prop where
  kept : ∀ (x : String) (ready : Bool), before[x]? = some ready → after[x]? = some ready
  new : ∀ x, pending? = some x → x ∉ before
  pending : ∀ x : String, after[x]? = some false → before[x]? = some false ∨ pending? = some x

namespace NameTable.Extends

variable {before after : NameTable} {pending? : Option String} {name : String}

theorem refl (table : NameTable) : table.Extends table none :=
  ⟨fun _ _ h => h, nofun, fun _ h => .inl h⟩

theorem mem (h : before.Extends after pending?) {x : String} (hx : x ∈ before) : x ∈ after := by
  rw [← Std.ExtTreeMap.isSome_getElem?_iff_mem, h.kept x _ (Std.ExtTreeMap.getElem?_eq_some_getElem hx)]
  rfl

/-- A name that is declared is new, and it is the only one pending then. -/
theorem declare (h : before.Extends after none) (hname : name ∉ after) :
    before.Extends (after.insert name false) (some name) where
  kept x ready hx := by
    have hne : compare name x ≠ .eq := by
      rw [ne_eq, Std.compare_eq_iff_eq]
      rintro rfl
      exact hname (h.mem (Std.ExtTreeMap.mem_iff_isSome_getElem?.2 (by simp [hx])))
    rw [Std.ExtTreeMap.getElem?_insert, if_neg hne]
    exact h.kept x ready hx
  new x hx := by
    cases hx
    exact fun hbefore => hname (h.mem hbefore)
  pending x hx := by
    rw [Std.ExtTreeMap.getElem?_insert] at hx
    split at hx
    · next heq => exact .inr (congrArg some (Std.compare_eq_iff_eq.1 heq))
    · exact (h.pending x hx).imp_right nofun

/-- The pending name becomes ready. -/
theorem define (h : before.Extends after (some name)) :
    before.Extends (after.insert name true) none where
  kept x ready hx := by
    have hne : compare name x ≠ .eq := by
      rw [ne_eq, Std.compare_eq_iff_eq]
      rintro rfl
      exact h.new name rfl (Std.ExtTreeMap.mem_iff_isSome_getElem?.2 (by simp [hx]))
    rw [Std.ExtTreeMap.getElem?_insert, if_neg hne]
    exact h.kept x ready hx
  new := nofun
  pending x hx := by
    rw [Std.ExtTreeMap.getElem?_insert] at hx
    split at hx
    · cases hx
    · next hne =>
        refine .inl ((h.pending x hx).resolve_right fun heq => hne ?_)
        rw [Std.compare_eq_iff_eq]
        exact Option.some.inj heq

end NameTable.Extends

namespace Step

variable {n m : Names} {step : Step} {rest steps : List Step} {before : NameTable}
  {pending? : Option String}

/-- What one step does to the innermost scope, where names are declared one at a time. -/
theorem OneByOne.extends_of_run (h : OneByOne pending? (step :: rest))
    (hbefore : before.Extends n.innermost pending?) (hrun : step.run n = .ok () m) :
    ∃ pending'?, before.Extends m.innermost pending'? ∧ OneByOne pending'? rest := by
  have hinner := run_innermost hrun
  cases h with
  | declare h =>
      have hname : _ ∉ n.innermost := exists_run_declare.1 ⟨m, hrun⟩
      rw [hinner]
      exact ⟨_, hbefore.declare hname, h⟩
  | define h =>
      rw [hinner]
      exact ⟨_, hbefore.define, h⟩
  | refuse h | locate h | exit h | within _ h =>
      rw [hinner]
      exact ⟨_, hbefore, h⟩

theorem innermost_of_run_eq_error {e : ResolveError} (hrun : step.run n = .error e m) :
    m.innermost = n.innermost := by
  have hscopes := scopes_of_run_eq_error hrun
  rw [Names.scopes_eq_cons, n.scopes_eq_cons] at hscopes
  exact (List.cons.inj hscopes).1

/-- Where names are declared one at a time, the innermost scope keeps what it has, also where a step fails. -/
theorem OneByOne.extends_final (h : OneByOne pending? steps)
    (hbefore : before.Extends n.innermost pending?) :
    ∃ pending'?, before.Extends (final (runAll steps) n).innermost pending'? := by
  induction steps generalizing n pending? with
  | nil => exact ⟨pending?, hbefore⟩
  | cons step rest ih =>
      rw [final_runAll_cons]
      cases hrun : step.run n with
      | ok _ k =>
          obtain ⟨pending'?, hk, hrest⟩ := h.extends_of_run hbefore hrun
          exact ih hrest hk
      | error e k =>
          refine ⟨pending?, ?_⟩
          rwa [innermost_of_run_eq_error hrun]

/-- Where all steps succeed, no name is pending in the end. -/
theorem OneByOne.extends_of_runAll (h : OneByOne pending? steps)
    (hbefore : before.Extends n.innermost pending?) (hrun : runAll steps n = .ok () m) :
    before.Extends m.innermost none := by
  induction steps generalizing n pending? with
  | nil =>
      cases h
      rwa [runAll_nil_eq_ok.1 hrun]
  | cons step rest ih =>
      obtain ⟨k, hk, hm⟩ := runAll_cons_eq_ok.1 hrun
      obtain ⟨pending'?, hextends, hrest⟩ := h.extends_of_run hbefore hk
      exact ih hrest hextends hm

/-- The names that steps put into the innermost scope are new there, but for the one that is pending. -/
theorem OneByOne.new_of_runAll (h : OneByOne pending? steps) (hrun : runAll steps n = .ok () m)
    {x : String} (hx : x ∈ marked steps) (hpending : pending? ≠ some x) : x ∉ n.innermost := by
  induction steps generalizing n pending? with
  | nil => cases hx
  | cons step rest ih =>
      obtain ⟨k, hk, hm⟩ := runAll_cons_eq_ok.1 hrun
      have hrest : ∀ {later? : Option String}, OneByOne later? rest → later? ≠ some x →
          x ∈ marked rest → x ∉ n.innermost := by
        intro later? hlater hne hmem hn
        apply ih hlater hm hmem hne
        have hkept : x ∈ writeAll n.innermost [step] := mem_writeAll.2 (.inl hn)
        rwa [run_innermost hk]
      rw [marked_cons, List.mem_append] at hx
      cases h with
      | @declare name _ h =>
          by_cases hname : name = x
          · subst hname
            exact exists_run_declare.1 ⟨k, hk⟩
          · refine hrest h (by simpa using hname) (hx.resolve_left ?_)
            rintro (_ | ⟨_, ⟨⟩⟩)
            exact hname rfl
      | @define name _ h =>
          refine hrest h nofun (hx.resolve_left ?_)
          rintro (_ | ⟨_, ⟨⟩⟩)
          exact hpending rfl
      | refuse h | locate h | exit h | within _ h =>
          exact hrest h hpending (hx.resolve_left nofun)

end Step

/-- From `n` to `m` nothing is lost: no scope has been opened or closed for good, the outer ones are as they
    were, the innermost one has all its names with their marks, and all references have kept a distance. -/
structure Names.Balanced (n m : Names) : Prop extends n.Steady m where
  length : m.scopes.length = n.scopes.length
  kept : ∀ (x : String) (ready : Bool), n.innermost[x]? = some ready → m.innermost[x]? = some ready

/-- From `n` to `m` the innermost scope has gained these names and nothing else. They can all be read. -/
structure Names.Gains (n m : Names) (names : List String) : Prop where
  new : ∀ x ∈ names, x ∉ n.innermost
  ready : ∀ x ∈ names, m.innermost[x]? = some true
  others : ∀ x ∉ names, m.innermost[x]? = n.innermost[x]?

namespace Step

variable {n m : Names} {steps : List Step} {pending? : Option String}

/-- Names that are declared one at a time leave the names balanced, also where a step fails. -/
theorem OneByOne.balanced (h : OneByOne none steps) (n : Names) :
    n.Balanced (final (runAll steps) n) := by
  have hsteady := final_runAll_steady steps n
  obtain ⟨_, hextends⟩ := h.extends_final (.refl n.innermost)
  refine ⟨hsteady, ?_, hextends.kept⟩
  rw [Names.scopes_eq_cons, n.scopes_eq_cons, hsteady.outer, List.length_cons, List.length_cons]

/-- Where the steps succeed, their names are the ones that have been gained. -/
theorem OneByOne.gains (h : OneByOne none steps) (hrun : runAll steps n = .ok () m) {names : List String}
    (hnames : ∀ x, x ∈ marked steps ↔ x ∈ names) : n.Gains m names := by
  have hextends := h.extends_of_runAll (.refl n.innermost) hrun
  have hmem : ∀ x, x ∈ m.innermost ↔ x ∈ n.innermost ∨ x ∈ names := by
    intro x
    rw [runAll_innermost hrun, mem_writeAll, hnames]
  have hnew : ∀ x ∈ names, x ∉ n.innermost :=
    fun x hx => h.new_of_runAll hrun ((hnames x).2 hx) nofun
  refine ⟨hnew, fun x hx => ?_, fun x hx => ?_⟩
  · have hm : x ∈ m.innermost := (hmem x).2 (.inr hx)
    cases hready : m.innermost[x]? with
    | none => exact absurd hm ((getElem?_eq_none_iff _ _).1 hready)
    | some ready =>
        cases ready with
        | true => rfl
        | false =>
            have hbefore := (hextends.pending x hready).resolve_right nofun
            exact absurd (Std.ExtTreeMap.mem_iff_isSome_getElem?.2 (by simp [hbefore])) (hnew x hx)
  · cases hready : n.innermost[x]? with
    | some ready => exact hextends.kept x ready hready
    | none =>
        rw [getElem?_eq_none_iff] at hready ⊢
        rw [hmem]
        exact not_or.2 ⟨hready, hx⟩

/-! ### On the way -/

/-- The analysis passes the names `m` when it takes these steps with the names `n`: between two steps, inside a
    region or while it is entered, and where a step fails. -/
inductive Passes : List Step → Names → Names → Prop where
  | here (steps : List Step) (n : Names) : Passes steps n n
  | after {step : Step} {rest : List Step} {n k m : Names} (taken : step.run n = .ok () k)
      (h : Passes rest k m) : Passes (step :: rest) n m
  | entering (region : Region) (body rest : List Step) (n : Names) :
      Passes (.within region body :: rest) n n.push
  | inside {region : Region} {body rest : List Step} {n m : Names}
      (h : Passes body (n.enter region) m) : Passes (.within region body :: rest) n m
  | failed {step : Step} {rest : List Step} {n m : Names} {e : ResolveError}
      (h : step.run n = .error e m) : Passes (step :: rest) n m

theorem passes_final (steps : List Step) (n : Names) : Passes steps n (final (runAll steps) n) := by
  induction steps generalizing n with
  | nil => exact .here [] n
  | cons step rest ih =>
      rw [final_runAll_cons]
      cases hrun : step.run n with
      | ok _ k => exact .after hrun (ih k)
      | error e k => exact .failed hrun

end Step

/-- At most one name of the table is not ready. -/
def NameTable.OnePending (table : NameTable) : Prop :=
  ∀ x y : String, table[x]? = some false → table[y]? = some false → x = y

theorem NameTable.onePending_empty : NameTable.OnePending ∅ := by
  intro x y hx
  simp at hx

namespace NameTable.Extends

variable {before after : NameTable} {pending? : Option String}

theorem onePending (h : before.Extends after pending?) (hready : ∀ x : String, before[x]? ≠ some false) :
    after.OnePending := by
  intro x y hx hy
  have hpending : ∀ z : String, after[z]? = some false → pending? = some z :=
    fun z hz => (h.pending z hz).resolve_left (hready z)
  exact Option.some.inj ((hpending x hx).symm.trans (hpending y hy))

theorem onePending_scopes {n : Names} (h : before.Extends n.innermost pending?)
    (hready : ∀ x : String, before[x]? ≠ some false)
    (houter : ∀ table ∈ n.scopes.tail, table.OnePending) : ∀ table ∈ n.scopes, table.OnePending := by
  intro table htable
  rw [n.scopes_eq_cons, List.mem_cons] at htable
  rcases htable with rfl | htable
  · exact h.onePending hready
  · exact houter table htable

end NameTable.Extends

namespace Step

variable {n m : Names} {steps : List Step} {before : NameTable} {pending? : Option String}

/-- Wherever the analysis comes, each open scope has at most one name pending, if the scopes around have so at
    the start and the innermost one has no other than `pending?`. -/
theorem Passes.onePending (h : Passes steps n m) (hsteps : OneByOne pending? steps)
    (hbefore : before.Extends n.innermost pending?) (hready : ∀ x : String, before[x]? ≠ some false)
    (houter : ∀ table ∈ n.scopes.tail, table.OnePending) : ∀ table ∈ m.scopes, table.OnePending := by
  induction h generalizing before pending? with
  | here _ n => exact hbefore.onePending_scopes hready houter
  | @after step rest n k m taken _ ih =>
      obtain ⟨_, hk, hrest⟩ := hsteps.extends_of_run hbefore taken
      have htail : k.scopes.tail = n.scopes.tail := by
        rw [← final_of_ok taken]
        exact (final_run_steady step n).outer
      exact ih hrest hk hready (by rwa [htail])
  | entering region body rest n =>
      intro table htable
      rw [Names.scopes_push, List.mem_cons] at htable
      rcases htable with rfl | htable
      · exact NameTable.onePending_empty
      · exact hbefore.onePending_scopes hready houter table htable
  | @inside region body rest n m _ ih =>
      cases hsteps with
      | within hbody hrest =>
          refine ih hbody (.refl _) (n.ready_enter region) ?_
          rw [Names.scopes_tail_enter]
          exact hbefore.onePending_scopes hready houter
  | failed hrun =>
      rw [scopes_of_run_eq_error hrun]
      exact hbefore.onePending_scopes hready houter

end Step

/-- The names that the analysis of a program passes on its way, from the start on. -/
def Program.Passes (p : Program) (m : Names) : Prop := Step.Passes (Program.steps p) .initial m

namespace Scoping

/-- The analysis of a program ends in the names that its steps leave behind. -/
theorem final_program (p : Program) (n : Names) :
    final (Scoping.program p) n = final (Step.runAll (Program.steps p)) n := by
  induction p generalizing n with
  | nil => rfl
  | cons node rest ih =>
      have hrest := fun k => ih k
      unfold final at hrest ⊢
      rw [Scoping.program, Program.steps, Step.runAll_append, stmt_eq_runAll]
      simp only [bind, EStateM.bind, EStateM.adaptExcept]
      cases Step.runAll node.value.steps n with
      | ok _ k => exact hrest k
      | error e k => rfl

/-- The analysis of a statement or of an expression leaves its names balanced, whatever they are and also where
    it fails. Where it succeeds, the innermost scope has gained the names that the statement declares in it, all
    of which are ready, and an expression has declared none. Wherever the analysis of a program comes, no open
    scope has more than one name that is not ready. -/
theorem names_stay_balanced :
    (∀ (s : Stmt) (n : Names), n.Balanced (final (stmt s) n) ∧
      ∀ m, stmt s n = .ok () m → n.Gains m s.declared) ∧
    (∀ (e : Expr) (n : Names), n.Balanced (final (expr e) n) ∧
      ∀ m, expr e n = .ok () m → n.Gains m []) ∧
    ∀ p : Program, p.Passes (final (Scoping.program p) .initial) ∧
      ∀ m, p.Passes m → ∀ table ∈ m.scopes, table.OnePending := by
  refine ⟨fun s n => ?_, fun e n => ?_, fun p => ⟨?_, fun m hm => ?_⟩⟩
  · have hsteps : Step.OneByOne none s.steps := by
      simpa using s.steps_oneByOne .nil
    rw [stmt_eq_runAll]
    exact ⟨hsteps.balanced n, fun m hrun => hsteps.gains hrun fun x => s.mem_marked_steps_iff x⟩
  · have hsteps : Step.OneByOne none e.steps := by
      simpa using e.steps_oneByOne .nil
    rw [expr_eq_runAll]
    exact ⟨hsteps.balanced n, fun m hrun => hsteps.gains hrun e.mem_marked_steps_iff⟩
  · rw [final_program]
    exact Step.passes_final _ _
  · exact Step.Passes.onePending hm p.steps_oneByOne (.refl _) Names.ready_initial nofun

/-- Two names wait for their values when the analysis fails, each in a scope of its own. -/
def selfReading : Stmt :=
  .declare "a" (.lambda ⟨none, [⟨"b", none⟩], none, [.declare "c" (.var "c" ⟨0⟩)]⟩)

/-- The failure inside the function closes its scope, and leaves the outer name waiting. -/
theorem names_stay_balanced_of_failure :
    (∃ m, stmt selfReading .initial = .error (.selfReference "c") m ∧ Names.initial.Balanced m ∧
      m.innermost["a"]? = some false) ∧
    ∃ m inner outer, Program.Passes [⟨1, selfReading⟩] m ∧ m.scopes = [inner, outer] ∧
      inner["c"]? = some false ∧ outer["a"]? = some false ∧ inner.OnePending ∧ outer.OnePending := by
  obtain ⟨hstmt, -, hprogram⟩ := names_stay_balanced
  constructor
  · exact ⟨_, rfl, (hstmt selfReading .initial).1, rfl⟩
  · have hpasses : Program.Passes [⟨1, selfReading⟩] _ :=
      .after rfl (.inside (.after rfl (.after rfl (.after rfl (.here _ _)))))
    have hall := (hprogram _).2 _ hpasses
    exact ⟨_, _, _, hpasses, rfl, rfl, rfl, hall _ (.head _), hall _ (.tail _ (.head _))⟩

end Scoping

end Kiln
