/-
Module: Kiln.Proofs.Scoping.Validity
Purpose: Statically valid programs, told by the tree alone: no scope declares a name twice, every `return`
  stands inside some function, and no variable is read in its own first value outside of the functions
  nested there. The analysis comes to the same verdict in one pass, with tables of names and marks on them;
  where it rejects a program, it blames the first top-level statement with which the program is not valid any
  more.
Main exports: Stmt.scopes, Program.scopes, Stmt.returns, Expr.used, Program.Valid, Expr.accepted_iff,
  Stmt.accepted_iff, resolve_ok_iff_valid
-/
import Kiln.Proofs.Scoping.Acceptance
import Kiln.Proofs.Scoping.Discipline

namespace Kiln

open Step

/-! ### Valid programs -/

mutual

/-- The scopes inside an expression at any depth, each by the names that are declared in it. -/
def Expr.scopes : Expr → List (List String)
  | .number _ | .text _ | .bool _ | .var _ _ | .this _ => []
  | .binary _ left right | .logical _ left right => left.scopes ++ right.scopes
  | .unary _ operand => operand.scopes
  | .member object _ => object.scopes
  | .call callee args => callee.scopes ++ Expr.scopesOfAll args
  | .lambda f => f.scopes

/-- The scopes inside several expressions. -/
def Expr.scopesOfAll : List Expr → List (List String)
  | [] => []
  | e :: rest => e.scopes ++ Expr.scopesOfAll rest

/-- The scopes inside a statement at any depth. Branches and loop bodies that are no blocks have none of
    their own. -/
def Stmt.scopes : Stmt → List (List String)
  | .expr e => e.scopes
  | .declare _ value => value.scopes
  | .assign _ value => value.scopes
  | .update _ _ => []
  | .setMember object _ value => object.scopes ++ value.scopes
  | .block body => Stmt.declaredOfAll body :: Stmt.scopesOfAll body
  | .ifElse test thenBranch none => test.scopes ++ thenBranch.scopes
  | .ifElse test thenBranch (some elseBranch) =>
    test.scopes ++ (thenBranch.scopes ++ elseBranch.scopes)
  | .whileLoop test body => test.scopes ++ body.scopes
  | .function f => f.scopes
  | .ret none => []
  | .ret (some value) => value.scopes
  | .classDecl _ methods => Function.scopesOfAll methods

/-- The scopes inside several statements. -/
def Stmt.scopesOfAll : List Stmt → List (List String)
  | [] => []
  | s :: rest => s.scopes ++ Stmt.scopesOfAll rest

/-- The scope of a function, with its parameters and the names of its body, and those inside it. -/
def Function.scopes : Function → List (List String)
  | ⟨_, params, _, body⟩ =>
    (params.map (·.name) ++ Stmt.declaredOfAll body) :: Stmt.scopesOfAll body

/-- The scopes of several functions. -/
def Function.scopesOfAll : List Function → List (List String)
  | [] => []
  | f :: rest => f.scopes ++ Function.scopesOfAll rest

end

mutual

/-- Whether a statement has a `return` outside of all functions in it. -/
def Stmt.returns : Stmt → Bool
  | .ret _ => true
  | .block body => Stmt.returnsOfAll body
  | .ifElse _ thenBranch none => thenBranch.returns
  | .ifElse _ thenBranch (some elseBranch) => thenBranch.returns || elseBranch.returns
  | .whileLoop _ body => body.returns
  | _ => false

/-- Whether one of several statements has a `return` outside of all functions in it. -/
def Stmt.returnsOfAll : List Stmt → Bool
  | [] => false
  | s :: rest => s.returns || Stmt.returnsOfAll rest

end

mutual

/-- The variables that are read in an expression, outside of all functions in it. -/
def Expr.used : Expr → List String
  | .var name _ => [name]
  | .binary _ left right | .logical _ left right => left.used ++ right.used
  | .unary _ operand => operand.used
  | .member object _ => object.used
  | .call callee args => callee.used ++ Expr.usedOfAll args
  | _ => []

/-- The variables that are read in several expressions. -/
def Expr.usedOfAll : List Expr → List String
  | [] => []
  | e :: rest => e.used ++ Expr.usedOfAll rest

end

/-- A statement that is no declaration whose first value reads the declared variable. -/
def Stmt.readsOthers : Stmt → Bool
  | .declare name value => !value.used.contains name
  | _ => true

/-- The scopes of a program, that of the top level first. -/
def Program.scopes (p : Program) : List (List String) :=
  Stmt.declaredOfAll p.statements :: Stmt.scopesOfAll p.statements

/-- The program is statically valid. -/
structure Program.Valid (p : Program) : Prop where
  /-- No scope declares a name twice. -/
  declaredOnce : ∀ names ∈ p.scopes, names.Nodup
  /-- Every `return` stands inside some function. -/
  returnsInside : Stmt.returnsOfAll p.statements = false
  /-- No variable is read in its own first value. -/
  readsOthers : Stmt.everyOfAll Stmt.readsOthers p.statements = true

instance (p : Program) : Decidable p.Valid :=
  decidable_of_iff
    ((∀ names ∈ p.scopes, names.Nodup) ∧ Stmt.returnsOfAll p.statements = false ∧
      Stmt.everyOfAll Stmt.readsOthers p.statements = true)
    ⟨fun h => ⟨h.1, h.2.1, h.2.2⟩, fun h => ⟨h.declaredOnce, h.returnsInside, h.readsOthers⟩⟩

/-! ### Valid parts -/

/-- No scope of the list declares a name twice, and the statements there have been checked. -/
def Faultless (scopes : List (List String)) (checked : Bool) : Prop :=
  (∀ names ∈ scopes, names.Nodup) ∧ checked = true

theorem faultless_nil : Faultless [] true := by
  simp [Faultless]

theorem faultless_cons {names : List String} {scopes : List (List String)} {checked : Bool} :
    Faultless (names :: scopes) checked ↔ names.Nodup ∧ Faultless scopes checked := by
  rw [Faultless, List.forall_mem_cons, and_assoc]
  rfl

theorem faultless_append {s t : List (List String)} {a b : Bool} :
    Faultless (s ++ t) (a && b) ↔ Faultless s a ∧ Faultless t b := by
  rw [Faultless, List.forall_mem_append, Bool.and_eq_true, and_and_and_comm]
  rfl

/-- The parts of a statement that passes the check itself. -/
theorem faultless_parts {s t : List (List String)} {a b : Bool} :
    Faultless (s ++ t) (true && (a && b)) ↔ Faultless s a ∧ Faultless t b := by
  rw [Bool.true_and, faultless_append]

/-- The scopes inside an expression are valid. -/
def Expr.Valid (e : Expr) : Prop := Faultless e.scopes (e.every Stmt.readsOthers)

/-- The scopes inside several expressions are valid. -/
def Expr.ValidAll (es : List Expr) : Prop :=
  Faultless (Expr.scopesOfAll es) (Expr.everyOfAll Stmt.readsOthers es)

/-- The scopes inside a statement are valid. -/
def Stmt.Valid (s : Stmt) : Prop := Faultless s.scopes (s.every Stmt.readsOthers)

/-- The scopes inside several statements are valid. -/
def Stmt.ValidAll (ss : List Stmt) : Prop :=
  Faultless (Stmt.scopesOfAll ss) (Stmt.everyOfAll Stmt.readsOthers ss)

/-- The scope of a function and those inside it are valid. -/
def Function.Valid (f : Function) : Prop := Faultless f.scopes (f.every Stmt.readsOthers)

/-- The scopes of several functions and those inside them are valid. -/
def Function.ValidAll (fs : List Function) : Prop :=
  Faultless (Function.scopesOfAll fs) (Function.everyOfAll Stmt.readsOthers fs)

/-! ### What the analysis accepts -/

theorem Param.accepted_iff (ps : List Param) (n : Names) :
    Accepted (Param.steps ps) n ↔ n.Admits (ps.map (·.name)) := by
  induction ps generalizing n with
  | nil => exact iff_of_true (accepted_nil n) n.admits_nil
  | cons p rest ih =>
      rw [Param.steps, List.map_cons, Names.admits_cons]
      apply accepted_introduce
      intro k hk _
      rw [ih, Names.admits_iff_of_mem_iff]
      intro x
      rw [hk]
      simp [Std.ExtTreeMap.mem_insert, or_comm, eq_comm (a := x)]

/-- Two parts of an expression, the first of which puts no names into the scope around it. -/
theorem accepted_reads_append {x y : List Step} {first second : List String} {V W : Prop} {n : Names}
    (hmarked : marked x = [])
    (hx : Accepted x n ↔ (∀ z ∈ first, n.innermost[z]? ≠ some false) ∧ V)
    (hy : ∀ k, Accepted y k ↔ (∀ z ∈ second, k.innermost[z]? ≠ some false) ∧ W) :
    Accepted (x ++ y) n ↔
      (∀ z ∈ first ++ second, n.innermost[z]? ≠ some false) ∧ V ∧ W := by
  rw [List.forall_mem_append, and_and_and_comm, ← hx]
  apply accepted_append
  intro k hk
  rw [hy, innermost_eq hmarked hk]

/-- Where all names of the innermost scope are ready, an expression can read what it likes. -/
theorem Expr.allows_iff {e : Expr} {n : Names} (hn : n.Ready)
    (h : Accepted e.steps n ↔ (∀ x ∈ e.used, n.innermost[x]? ≠ some false) ∧ e.Valid) :
    Accepted e.steps n ↔ n.Allows [] false e.Valid := by
  rw [h, and_iff_right fun x _ => hn x, Names.allows_nil]

mutual

/-- An expression is accepted if it reads no variable of the innermost scope that is not ready, and the scopes
    inside it are valid. -/
theorem Expr.accepted_iff : ∀ (e : Expr) (n : Names),
    Accepted e.steps n ↔ (∀ x ∈ e.used, n.innermost[x]? ≠ some false) ∧ e.Valid
  | .number _, n => iff_of_true (accepted_nil n) ⟨List.forall_mem_nil _, faultless_nil⟩
  | .text _, n => iff_of_true (accepted_nil n) ⟨List.forall_mem_nil _, faultless_nil⟩
  | .bool _, n => iff_of_true (accepted_nil n) ⟨List.forall_mem_nil _, faultless_nil⟩
  | .this id, n => iff_of_true (accepted_locate n "this" id) ⟨List.forall_mem_nil _, faultless_nil⟩
  | .var name id, n => by
      rw [Expr.steps, accepted_cons (C := True) fun k _ => iff_true_intro (accepted_locate k name id)]
      simp [run_refuse_eq_ok, Expr.used, Expr.Valid, Expr.scopes, Expr.every, faultless_nil]
  | .binary _ left right, n => by
      rw [Expr.steps, Expr.Valid, Expr.scopes, Expr.every, faultless_append]
      exact accepted_reads_append left.marked_steps (Expr.accepted_iff left n) (Expr.accepted_iff right)
  | .logical _ left right, n => by
      rw [Expr.steps, Expr.Valid, Expr.scopes, Expr.every, faultless_append]
      exact accepted_reads_append left.marked_steps (Expr.accepted_iff left n) (Expr.accepted_iff right)
  | .unary _ operand, n => Expr.accepted_iff operand n
  | .member object _, n => Expr.accepted_iff object n
  | .call callee args, n => by
      rw [Expr.steps, Expr.Valid, Expr.scopes, Expr.every, faultless_append]
      exact accepted_reads_append callee.marked_steps (Expr.accepted_iff callee n)
        (Expr.acceptedAll_iff args)
  | .lambda f, n => by
      have hreads : ∀ x ∈ (Expr.lambda f).used, n.innermost[x]? ≠ some false := List.forall_mem_nil _
      rw [Expr.steps, Function.accepted_iff f, and_iff_right hreads]
      rfl

/-- Several expressions are accepted under the same condition. -/
theorem Expr.acceptedAll_iff : ∀ (es : List Expr) (n : Names), Accepted (Expr.stepsOfAll es) n ↔
    (∀ x ∈ Expr.usedOfAll es, n.innermost[x]? ≠ some false) ∧ Expr.ValidAll es
  | [], n => iff_of_true (accepted_nil n) ⟨List.forall_mem_nil _, faultless_nil⟩
  | e :: rest, n => by
      rw [Expr.stepsOfAll, Expr.ValidAll, Expr.scopesOfAll, Expr.everyOfAll, faultless_append]
      exact accepted_reads_append e.marked_steps (Expr.accepted_iff e n) (Expr.acceptedAll_iff rest)

/-- A statement between other statements is accepted if its names are new, it returns from a function only,
    and the scopes inside it are valid. -/
theorem Stmt.accepted_iff : ∀ (s : Stmt) {n : Names}, n.Ready →
    (Accepted s.steps n ↔ n.Allows s.declared s.returns s.Valid)
  | .expr e, n, hn => Expr.allows_iff hn (Expr.accepted_iff e n)
  | .declare name value, n, hn => by
      have hvalid : (Stmt.declare name value).Valid ↔ name ∉ value.used ∧ value.Valid := by
        simp [Stmt.Valid, Stmt.scopes, Stmt.every, Stmt.readsOthers, Expr.Valid, Faultless, and_left_comm]
      have hvalue : ∀ k, (Step.declare name).run n = .ok () k →
          (Accepted (value.steps ++ [.define name]) k ↔ name ∉ value.used ∧ value.Valid) := by
        intro k hk
        rw [accepted_append_of_forall fun k => accepted_define k name, Expr.accepted_iff value,
          run_innermost hk]
        exact and_congr_left' (hn.forall_insert_iff name value.used)
      rw [Stmt.steps, accepted_cons hvalue, exists_run_declare, hvalid]
      exact Names.allows_singleton.symm
  | .assign target value, n, hn => by
      rw [Stmt.steps, accepted_append_of_forall fun k => accepted_locate k _ _]
      exact Expr.allows_iff hn (Expr.accepted_iff value n)
  | .update target op, n, hn => iff_of_true (accepted_locate n _ _) (Names.allows_nil.2 faultless_nil)
  | .setMember object name value, n, hn => by
      have hvalid : (Stmt.setMember object name value).Valid ↔ object.Valid ∧ value.Valid :=
        faultless_parts
      rw [Stmt.steps, hvalid]
      apply accepted_allows_append (Expr.allows_iff hn (Expr.accepted_iff object n)) object.mem_marked_steps_iff
      intro k hk
      exact Expr.allows_iff (ready_after_expr hn hk) (Expr.accepted_iff value k)
  | .block body, n, hn => by
      have hvalid : (Stmt.block body).Valid ↔ (Stmt.declaredOfAll body).Nodup ∧ Stmt.ValidAll body :=
        faultless_cons
      rw [Stmt.steps, accepted_within, Stmt.acceptedAll_iff body (n.ready_enter _), hvalid, Names.Allows,
        Names.admits_of_eq_empty (n.innermost_enter_block body)]
      change _ ∧ _ ∧ _ ↔ n.Admits [] ∧ (Stmt.returnsOfAll body = true → n.enclosing.isSome = true) ∧ _
      rw [and_iff_right n.admits_nil, and_left_comm]
      rfl
  | .ifElse test thenBranch none, n, hn => by
      have hvalid : (Stmt.ifElse test thenBranch none).Valid ↔ test.Valid ∧ thenBranch.Valid :=
        faultless_parts
      rw [Stmt.steps, hvalid]
      apply accepted_allows_append (Expr.allows_iff hn (Expr.accepted_iff test n)) test.mem_marked_steps_iff
      intro k hk
      exact Stmt.accepted_iff thenBranch (ready_after_expr hn hk)
  | .ifElse test thenBranch (some elseBranch), n, hn => by
      have hvalid : (Stmt.ifElse test thenBranch (some elseBranch)).Valid ↔
          test.Valid ∧ thenBranch.Valid ∧ elseBranch.Valid :=
        faultless_parts.trans (and_congr_right' faultless_append)
      rw [Stmt.steps, hvalid]
      apply accepted_allows_append (Expr.allows_iff hn (Expr.accepted_iff test n)) test.mem_marked_steps_iff
      intro k hk
      have hready := ready_after_expr hn hk
      apply accepted_allows_append (Stmt.accepted_iff thenBranch hready) thenBranch.mem_marked_steps_iff
      intro m hm
      exact Stmt.accepted_iff elseBranch (ready_of_runAll hready hm)
  | .whileLoop test body, n, hn => by
      have hvalid : (Stmt.whileLoop test body).Valid ↔ test.Valid ∧ body.Valid := faultless_parts
      rw [Stmt.steps, hvalid]
      apply accepted_allows_append (Expr.allows_iff hn (Expr.accepted_iff test n)) test.mem_marked_steps_iff
      intro k hk
      exact Stmt.accepted_iff body (ready_after_expr hn hk)
  | .function f, n, hn => by
      refine Iff.trans ?_ Names.allows_singleton.symm
      apply accepted_introduce
      intro k _ _
      exact Function.accepted_iff f k
  | .ret none, n, hn => by
      rw [Stmt.steps, accepted_exit, iff_true_intro (show (Stmt.ret none).Valid from faultless_nil)]
      rfl
  | .ret (some value), n, hn => by
      have hvalid : (Stmt.ret (some value)).Valid ↔ True ∧ value.Valid := (iff_of_eq (true_and _)).symm
      rw [Stmt.steps, hvalid]
      apply accepted_allows_append (x := [.exit]) accepted_exit fun _ => Iff.rfl
      intro k hk
      rw [runAll_singleton] at hk
      cases (run_exit_eq_ok.1 hk).2
      exact Expr.allows_iff hn (Expr.accepted_iff value n)
  | .classDecl name methods, n, hn => by
      refine Iff.trans ?_ Names.allows_singleton.symm
      apply accepted_introduce
      intro k _ _
      rw [accepted_within]
      exact Function.acceptedAll_iff methods _

theorem Stmt.acceptedAll_iff : ∀ (ss : List Stmt) {n : Names}, n.Ready →
    (Accepted (Stmt.stepsOfAll ss) n ↔
      n.Allows (Stmt.declaredOfAll ss) (Stmt.returnsOfAll ss) (Stmt.ValidAll ss))
  | [], n, hn => iff_of_true (accepted_nil n) (Names.allows_nil.2 faultless_nil)
  | s :: rest, n, hn => by
      have hvalid : Stmt.ValidAll (s :: rest) ↔ s.Valid ∧ Stmt.ValidAll rest := faultless_append
      rw [Stmt.stepsOfAll, hvalid]
      apply accepted_allows_append (Stmt.accepted_iff s hn) s.mem_marked_steps_iff
      intro k hk
      exact Stmt.acceptedAll_iff rest (ready_of_runAll hn hk)

/-- A function is accepted wherever it stands, if its own scope and those inside it are valid. -/
theorem Function.accepted_iff {kind : FunctionKind} :
    ∀ (f : Function) (n : Names), Accepted (f.steps kind) n ↔ f.Valid
  | ⟨name, params, returnType, body⟩, n => by
      have hvalid : Function.Valid ⟨name, params, returnType, body⟩ ↔
          (params.map (·.name) ++ Stmt.declaredOfAll body).Nodup ∧ Stmt.ValidAll body := faultless_cons
      have hbody : Accepted (Param.steps params ++ Stmt.stepsOfAll body)
          (n.enter (.function kind ⟨name, params, returnType, body⟩)) ↔
          (n.enter (.function kind ⟨name, params, returnType, body⟩)).Allows
            (params.map (·.name) ++ Stmt.declaredOfAll body) (false || Stmt.returnsOfAll body)
            (True ∧ Stmt.ValidAll body) := by
        apply accepted_allows_append
        · rw [Param.accepted_iff, Names.Allows]
          simp
        · exact Param.mem_marked_steps_iff params
        · intro k hk
          apply Stmt.acceptedAll_iff body
          intro x
          rw [runAll_innermost hk]
          exact Param.writeAll_ready params (n.ready_enter _) x
      rw [Function.steps, accepted_within, hbody, hvalid, Names.Allows,
        Names.admits_of_eq_empty (n.innermost_enter_function _ _), true_and]
      exact and_congr_right' (and_iff_right fun _ => rfl)

theorem Function.acceptedAll_iff : ∀ (fs : List Function) (n : Names),
    Accepted (Function.stepsOfAll fs) n ↔ Function.ValidAll fs
  | [], n => iff_of_true (accepted_nil n) faultless_nil
  | f :: rest, n => by
      rw [Function.stepsOfAll, Function.ValidAll, Function.scopesOfAll, Function.everyOfAll,
        faultless_append, accepted_append fun k _ => Function.acceptedAll_iff rest k,
        Function.accepted_iff f]
      rfl

end

/-! ### Whole programs -/

theorem Program.allows_initial_iff (p : Program) :
    Names.initial.Allows (Stmt.declaredOfAll p.statements) (Stmt.returnsOfAll p.statements)
      (Stmt.ValidAll p.statements) ↔ p.Valid := by
  have hempty : Names.initial.innermost = ∅ := rfl
  rw [Names.Allows, Names.admits_of_eq_empty hempty]
  constructor
  · rintro ⟨hnodup, hreturns, hscopes, hreads⟩
    have hnone : Stmt.returnsOfAll p.statements = false := by
      cases hr : Stmt.returnsOfAll p.statements with
      | false => rfl
      | true => cases hreturns hr
    exact ⟨List.forall_mem_cons.2 ⟨hnodup, hscopes⟩, hnone, hreads⟩
  · intro h
    obtain ⟨hnodup, hscopes⟩ := List.forall_mem_cons.1 h.declaredOnce
    have hreturns : Stmt.returnsOfAll p.statements = true → Names.initial.enclosing.isSome = true := by
      rw [h.returnsInside]
      exact nofun
    exact ⟨hnodup, hreturns, hscopes, h.readsOthers⟩

/-- The analysis takes all steps of the valid programs and of no others. -/
theorem Program.accepted_iff (p : Program) : Accepted (Program.steps p) .initial ↔ p.Valid := by
  rw [Program.steps_eq, Stmt.acceptedAll_iff _ Names.ready_initial, Program.allows_initial_iff]

theorem exists_resolve_iff_accepted (p : Program) :
    (∃ a, resolve p = .ok a) ↔ Accepted (Program.steps p) .initial := by
  constructor
  · rintro ⟨a, ha⟩
    obtain ⟨n, hn, _⟩ := (resolve_eq_ok_iff p a).1 ha
    exact ⟨n, hn⟩
  · rintro ⟨n, hn⟩
    exact ⟨n.found, (resolve_eq_ok_iff p _).2 ⟨n, hn, rfl⟩⟩

/-- What comes before accepted statements is accepted. -/
theorem Program.accepted_of_append {p q : Program} {n : Names}
    (h : Accepted (Program.steps (p ++ q)) n) : Accepted (Program.steps p) n := by
  obtain ⟨m, hm⟩ := h
  rw [Program.steps_append] at hm
  obtain ⟨k, hk, _⟩ := runAll_append_eq_ok.1 hm
  exact ⟨k, hk⟩

theorem Scoping.program_cons_of_ok {node : Located Stmt} {n k : Names}
    (h : Scoping.stmt node.value n = .ok () k) (rest : Program) :
    Scoping.program (node :: rest) n = Scoping.program rest k := by
  simp only [Scoping.program, bind, EStateM.bind, EStateM.adaptExcept, h]

theorem Scoping.program_cons_of_error {node : Located Stmt} {n k : Names} {reason : ResolveError}
    (h : Scoping.stmt node.value n = .error reason k) (rest : Program) :
    Scoping.program (node :: rest) n = .error ⟨node.line, reason⟩ k := by
  simp only [Scoping.program, bind, EStateM.bind, EStateM.adaptExcept, h]

/-- Where the analysis of a program fails: the statements before that one are taken without fault, and the
    program that is cut off after it fails in the same way. -/
theorem Scoping.exists_split_of_program_error {p : Program} {n m : Names} {e : Located ResolveError}
    (h : Scoping.program p n = .error e m) :
    ∃ before node after k, p = before ++ node :: after ∧ e.line = node.line ∧
      Scoping.program before n = .ok () k ∧ Scoping.program (before ++ [node]) n = .error e m := by
  induction p generalizing n with
  | nil => cases h
  | cons node rest ih =>
      cases hrun : Scoping.stmt node.value n with
      | error reason k =>
          rw [Scoping.program_cons_of_error hrun] at h
          cases h
          exact ⟨[], node, rest, n, rfl, rfl, rfl, Scoping.program_cons_of_error hrun []⟩
      | ok a k =>
          rw [Scoping.program_cons_of_ok hrun] at h
          obtain ⟨before, bad, after, k', rfl, hline, hbefore, hbad⟩ := ih h
          refine ⟨node :: before, bad, after, k', rfl, hline, ?_, ?_⟩
          · rwa [Scoping.program_cons_of_ok hrun]
          · rwa [List.cons_append, Scoping.program_cons_of_ok hrun]

/-- Where the analysis of a program fails: all statements before that one are accepted, and the failure is
    placed on its line. -/
theorem Scoping.exists_of_program_eq_error {p : Program} {n m : Names} {e : Located ResolveError}
    (h : Scoping.program p n = .error e m) :
    ∃ before node after, p = before ++ node :: after ∧ e.line = node.line ∧
      Accepted (Program.steps before) n ∧ ¬Accepted (Program.steps (before ++ [node])) n := by
  obtain ⟨before, node, after, k, rfl, hline, hbefore, hbad⟩ := Scoping.exists_split_of_program_error h
  refine ⟨before, node, after, rfl, hline, ⟨k, (Scoping.program_eq_ok_iff _ _ _).1 hbefore⟩, ?_⟩
  rintro ⟨last, hlast⟩
  cases hbad.symm.trans ((Scoping.program_eq_ok_iff _ _ _).2 hlast)

/-- The analysis accepts the statically valid programs and no others. A rejected program is blamed on the
    line of its first top-level statement after which the cut-off program is rejected. -/
theorem resolve_ok_iff_valid (p : Program) :
    ((∃ a, resolve p = .ok a) ↔ p.Valid) ∧
    ∀ e, resolve p = .error e → ∃ i node, p[i]? = some node ∧ e.line = node.line ∧
      (∀ a, resolve (p.take (i + 1)) ≠ .ok a) ∧ ∀ j ≤ i, ∃ a, resolve (p.take j) = .ok a := by
  constructor
  · rw [exists_resolve_iff_accepted, Program.accepted_iff]
  · intro e he
    unfold resolve at he
    split at he
    · cases he
    · next reason last hrun =>
      cases he
      obtain ⟨before, node, after, rfl, hline, hbefore, hbad⟩ := Scoping.exists_of_program_eq_error hrun
      have hcut : (before ++ node :: after).take (before.length + 1) = before ++ [node] := by
        rw [List.append_cons, List.take_left' (by simp)]
      refine ⟨before.length, node, by simp, hline, ?_, ?_⟩
      · intro a ha
        rw [hcut] at ha
        exact hbad ((exists_resolve_iff_accepted _).1 ⟨a, ha⟩)
      · intro j hj
        rw [List.take_append_of_le_length hj, exists_resolve_iff_accepted]
        rw [← List.take_append_drop j before] at hbefore
        exact Program.accepted_of_append hbefore

/-- A branch that is no block declares `x` in the scope around it, a block does not. -/
def redeclaring : Program :=
  [⟨1, .ifElse (.bool true) (.declare "x" (.number 1)) none⟩,
    ⟨2, .block [.declare "x" (.number 2)]⟩,
    ⟨4, .declare "x" (.number 3)⟩,
    ⟨5, .ret none⟩]

/-- The third statement of the program is the first to be blamed. -/
theorem redeclaring_rejected :
    resolve redeclaring = .error ⟨4, .duplicateDeclaration "x"⟩ ∧ ¬redeclaring.Valid ∧
    ∃ i node, redeclaring[i]? = some node ∧ 4 = node.line ∧
      (∀ a, resolve (redeclaring.take (i + 1)) ≠ .ok a) ∧
      ∀ j ≤ i, ∃ a, resolve (redeclaring.take j) = .ok a := by
  have hrejected : resolve redeclaring = .error ⟨4, .duplicateDeclaration "x"⟩ := rfl
  obtain ⟨hvalid, hblamed⟩ := resolve_ok_iff_valid redeclaring
  have hinvalid : ¬redeclaring.Valid := by
    rw [← hvalid, hrejected]
    exact nofun
  exact ⟨hrejected, hinvalid, hblamed _ hrejected⟩

end Kiln
