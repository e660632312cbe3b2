/-
Module: Kiln.Proofs.Scoping.Acceptance
Purpose: Which steps of the scope analysis succeed. Steps write into the table of the innermost scope only, so
  whether the steps of one part of a scope succeed after those of another depends on what the first part has
  written there: names that are taken, and names that are not ready to be read. Between two statements all
  names are ready.
Main exports: Step.writeAll, Step.runAll_innermost, Step.Accepted, Names.Ready, Names.Admits, Names.Allows,
  Step.accepted_allows_append
-/
import Kiln.Proofs.Scoping.Regions
import Kiln.Proofs.Scoping.Splitting

namespace Kiln

/-! ### What steps write into the table of their scope -/

/-- The names of the innermost scope, after a name in it is marked. -/
theorem Names.innermost_mark (n : Names) (name : String) (ready : Bool) :
    (n.mark name ready).innermost = n.innermost.insert name ready := by
  unfold Names.mark Names.innermost
  cases n.locals <;> rfl

namespace Step

/-- What a step writes into the table of the innermost scope. -/
def write (table : NameTable) : Step → NameTable
  | .declare name => table.insert name false
  | .define name => table.insert name true
  | _ => table

/-- What several steps write into the table of the innermost scope. -/
def writeAll (table : NameTable) (steps : List Step) : NameTable := steps.foldl write table

theorem writeAll_append (table : NameTable) (first second : List Step) :
    writeAll table (first ++ second) = writeAll (writeAll table first) second := by
  simp [writeAll]

theorem mem_writeAll {steps : List Step} {table : NameTable} {x : String} :
    x ∈ writeAll table steps ↔ x ∈ table ∨ x ∈ marked steps := by
  induction steps generalizing table with
  | nil => simp [writeAll]
  | cons step rest ih =>
      have hrest : writeAll table (step :: rest) = writeAll (step.write table) rest := rfl
      rw [hrest, ih, marked_cons, List.mem_append, ← or_assoc]
      cases step <;>
        simp [write, marks, Std.ExtTreeMap.mem_insert, or_comm, eq_comm (a := x)]

theorem writeAll_of_marked_eq_nil {steps : List Step} (h : marked steps = []) (table : NameTable) :
    writeAll table steps = table := by
  induction steps generalizing table with
  | nil => rfl
  | cons step rest ih =>
      rw [marked_cons, List.append_eq_nil_iff] at h
      have hrest : writeAll table (step :: rest) = writeAll (step.write table) rest := rfl
      rw [hrest, ih h.2]
      cases step with
      | declare name => cases h.1
      | define name => cases h.1
      | _ => rfl

/-- A region that succeeds leaves the top level alone, since its inside has a scope of its own. -/
theorem topLevel_leave (n m : Names) (region : Region) : (n.leave m region).topLevel = m.topLevel := by
  cases region <;> rfl

theorem topLevel_enter (n : Names) (region : Region) : (n.enter region).topLevel = n.topLevel := by
  cases region <;> rfl

theorem locals_ne_nil_of_grows {n m : Names} {names : List String} (h : n.Grows m names)
    (hn : n.locals ≠ []) : m.locals ≠ [] := by
  rcases h with ⟨hnil, _⟩ | ⟨_, _, _, _, hm, _⟩
  · exact absurd hnil hn
  · rw [hm]
    exact List.cons_ne_nil _ _

theorem topLevel_mark {n : Names} (hn : n.locals ≠ []) (name : String) (ready : Bool) :
    (n.mark name ready).topLevel = n.topLevel := by
  unfold Names.mark
  split
  · next hnil => exact absurd hnil hn
  · rfl

mutual

theorem run_topLevel : ∀ (step : Step) {n m : Names}, n.locals ≠ [] → step.run n = .ok () m →
    m.topLevel = n.topLevel
  | .declare name, n, m, hn, h => by rw [(run_declare_eq_ok.1 h).2, topLevel_mark hn]
  | .define name, n, m, hn, h => by rw [run_define_eq_ok.1 h, topLevel_mark hn]
  | .refuse _, n, m, _, h => by rw [(run_refuse_eq_ok.1 h).2]
  | .locate name id, n, m, _, h => by
      rw [run_locate] at h
      cases h
      split <;> rfl
  | .exit, n, m, _, h => by rw [(run_exit_eq_ok.1 h).2]
  | .within region body, n, m, _, h => by
      obtain ⟨k, hk, rfl⟩ := run_within_eq_ok.1 h
      have hinside : (n.enter region).locals ≠ [] := by
        obtain ⟨table, htable⟩ := n.locals_enter region
        rw [htable]
        exact List.cons_ne_nil _ _
      rw [topLevel_leave, runAll_topLevel body hinside hk, topLevel_enter]

/-- Inside some scope, steps leave the names of the top level alone. -/
theorem runAll_topLevel : ∀ (steps : List Step) {n m : Names}, n.locals ≠ [] →
    runAll steps n = .ok () m → m.topLevel = n.topLevel
  | [], n, m, _, h => by rw [runAll_nil_eq_ok.1 h]
  | step :: rest, n, m, hn, h => by
      obtain ⟨k, hk, hm⟩ := runAll_cons_eq_ok.1 h
      have hk' := locals_ne_nil_of_grows (run_grows step hk) hn
      rw [runAll_topLevel rest hk' hm, run_topLevel step hn hk]

end

/-- A step writes into the table of the innermost scope what it says, and nothing else. -/
theorem run_innermost {step : Step} {n m : Names} (h : step.run n = .ok () m) :
    m.innermost = step.write n.innermost := by
  cases step with
  | declare name => rw [(run_declare_eq_ok.1 h).2, Names.innermost_mark, write]
  | define name => rw [run_define_eq_ok.1 h, Names.innermost_mark, write]
  | refuse name =>
      rw [(run_refuse_eq_ok.1 h).2]
      rfl
  | locate name id =>
      rw [run_locate] at h
      cases h
      split <;> rfl
  | exit =>
      rw [(run_exit_eq_ok.1 h).2]
      rfl
  | within region body =>
      obtain ⟨k, hk, rfl⟩ := run_within_eq_ok.1 h
      have hlocals := (runAll_grows body hk).locals_leave
      have hinside : (n.enter region).locals ≠ [] := by
        obtain ⟨table, htable⟩ := n.locals_enter region
        rw [htable]
        exact List.cons_ne_nil _ _
      have htop : (n.leave k region).topLevel = n.topLevel := by
        rw [topLevel_leave, runAll_topLevel body hinside hk, topLevel_enter]
      rw [Names.innermost, hlocals, htop]
      rfl

theorem runAll_innermost {steps : List Step} {n m : Names} (h : runAll steps n = .ok () m) :
    m.innermost = writeAll n.innermost steps := by
  induction steps generalizing n with
  | nil => rw [runAll_nil_eq_ok.1 h, writeAll, List.foldl_nil]
  | cons step rest ih =>
      obtain ⟨k, hk, hm⟩ := runAll_cons_eq_ok.1 h
      rw [ih hm, run_innermost hk]
      rfl

/-- Steps that put no names into the innermost scope leave its table as it is. -/
theorem innermost_eq {steps : List Step} (hmarked : marked steps = []) {n m : Names}
    (h : runAll steps n = .ok () m) : m.innermost = n.innermost := by
  rw [runAll_innermost h, writeAll_of_marked_eq_nil hmarked]

/-! ### Steps that are accepted -/

/-- The analysis takes these steps without finding a fault. -/
def Accepted (steps : List Step) (n : Names) : Prop := ∃ m, runAll steps n = .ok () m

variable {x y : List Step} {n : Names} {C : Prop}

theorem accepted_nil (n : Names) : Accepted [] n := ⟨n, runAll_nil_eq_ok.2 rfl⟩

/-- Two lists of steps are accepted one after the other, if `C` says when the second one is. -/
theorem accepted_append (hy : ∀ k, runAll x n = .ok () k → (Accepted y k ↔ C)) :
    Accepted (x ++ y) n ↔ Accepted x n ∧ C := by
  constructor
  · rintro ⟨m, hm⟩
    obtain ⟨k, hk, hrest⟩ := runAll_append_eq_ok.1 hm
    exact ⟨⟨k, hk⟩, (hy k hk).1 ⟨m, hrest⟩⟩
  · rintro ⟨⟨k, hk⟩, hC⟩
    obtain ⟨m, hm⟩ := (hy k hk).2 hC
    exact ⟨m, runAll_append_eq_ok.2 ⟨k, hk, hm⟩⟩

theorem accepted_cons {step : Step} (hy : ∀ k, step.run n = .ok () k → (Accepted y k ↔ C)) :
    Accepted (step :: y) n ↔ (∃ k, step.run n = .ok () k) ∧ C := by
  have happend := accepted_append (x := [step]) (y := y) (n := n) (C := C)
    (by simpa [runAll_singleton] using hy)
  rwa [List.singleton_append, Accepted, Accepted, runAll_singleton] at happend

theorem exists_run_declare {name : String} :
    (∃ k, (Step.declare name).run n = .ok () k) ↔ name ∉ n.innermost := by
  simp [run_declare_eq_ok, ← Bool.not_eq_true, Std.ExtTreeMap.contains_iff_mem]

/-- A name is introduced when it is new in its scope. -/
theorem accepted_introduce {name : String} {rest : List Step}
    (hrest : ∀ k : Names, k.innermost = (n.innermost.insert name false).insert name true →
      k.enclosing = n.enclosing → (Accepted rest k ↔ C)) :
    Accepted (.declare name :: .define name :: rest) n ↔ name ∉ n.innermost ∧ C := by
  rw [← exists_run_declare]
  apply accepted_cons
  intro k hk
  rw [accepted_cons (C := C), and_iff_right ⟨_, run_define_eq_ok.2 rfl⟩]
  intro k' hk'
  apply hrest
  · rw [run_innermost hk', run_innermost hk]
    rfl
  · rw [run_enclosing _ hk', run_enclosing _ hk]

/-- A region is accepted when its inside is. -/
theorem accepted_within {region : Region} {body : List Step} :
    Accepted [.within region body] n ↔ Accepted body (n.enter region) := by
  unfold Accepted
  rw [runAll_singleton]
  constructor
  · rintro ⟨m, hm⟩
    obtain ⟨k, hk, _⟩ := run_within_eq_ok.1 hm
    exact ⟨k, hk⟩
  · rintro ⟨k, hk⟩
    exact ⟨_, run_within_eq_ok.2 ⟨k, hk, rfl⟩⟩

end Step

/-! ### Names that are ready -/

/-- All names of the innermost scope can be read, as it is between two statements. -/
def Names.Ready (n : Names) : Prop := ∀ x : String, n.innermost[x]? ≠ some false

theorem Names.ready_initial : Names.initial.Ready := by
  intro x
  simp [Names.initial, Names.innermost]

theorem Names.ready_enter (n : Names) (region : Region) : (n.enter region).Ready := by
  intro x
  cases region with
  | block body => simp [Names.enter, Names.push, Names.innermost]
  | function kind f => simp [Names.enter, Names.push, Names.innermost]
  | methods functions =>
      rw [Names.enter, Names.innermost_mark, Std.ExtTreeMap.getElem?_insert]
      split
      · simp
      · simp [Names.push, Names.innermost]

/-- Writing `true` on a name leaves no other one unready. -/
theorem getElem?_insert_true_ne {table : NameTable} {name : String}
    (h : ∀ x : String, x ≠ name → table[x]? ≠ some false) (x : String) :
    (table.insert name true)[x]? ≠ some false := by
  rw [Std.ExtTreeMap.getElem?_insert]
  split
  · simp
  · next hne => exact h x fun hx => hne (by simp [hx])

theorem getElem?_introduce_ne {table : NameTable} (name : String)
    (h : ∀ x : String, table[x]? ≠ some false) (x : String) :
    ((table.insert name false).insert name true)[x]? ≠ some false := by
  apply getElem?_insert_true_ne
  intro y hy
  rw [Std.ExtTreeMap.getElem?_insert, if_neg (by simpa using hy.symm)]
  exact h y

/-- A whole statement leaves no name unready. -/
theorem Stmt.writeAll_ready (s : Stmt) {table : NameTable} (h : ∀ x : String, table[x]? ≠ some false) :
    ∀ x : String, (Step.writeAll table s.steps)[x]? ≠ some false := by
  have hexpr : ∀ (e : Expr) (t : NameTable), Step.writeAll t e.steps = t :=
    fun e t => Step.writeAll_of_marked_eq_nil e.marked_steps t
  cases s with
  | expr e => simpa [Stmt.steps, hexpr] using h
  | declare name value =>
      have hsteps : Step.writeAll table (Stmt.declare name value).steps
          = (table.insert name false).insert name true := by
        change Step.writeAll (table.insert name false) (value.steps ++ [.define name]) = _
        rw [Step.writeAll_append, hexpr]
        rfl
      rw [hsteps]
      exact getElem?_introduce_ne name h
  | assign target value =>
      rw [Stmt.steps, Step.writeAll_append, hexpr]
      exact h
  | update target op => exact h
  | setMember object name value => simpa [Stmt.steps, Step.writeAll_append, hexpr] using h
  | block body => exact h
  | ifElse test thenBranch elseBranch =>
      have hthen := thenBranch.writeAll_ready h
      cases elseBranch with
      | none => simpa [Stmt.steps, Step.writeAll_append, hexpr] using hthen
      | some elseBranch =>
          have helse := elseBranch.writeAll_ready hthen
          simpa [Stmt.steps, Step.writeAll_append, hexpr] using helse
  | whileLoop test body =>
      have hbody := body.writeAll_ready h
      simpa [Stmt.steps, Step.writeAll_append, hexpr] using hbody
  | function f =>
      have hsteps : Step.writeAll table (Stmt.function f).steps
          = (table.insert f.displayName false).insert f.displayName true :=
        Step.writeAll_of_marked_eq_nil f.marked_steps _
      rw [hsteps]
      exact getElem?_introduce_ne f.displayName h
  | ret value =>
      cases value with
      | none => exact h
      | some value =>
          have hsteps : Step.writeAll table (Stmt.ret (some value)).steps = table := hexpr value table
          rw [hsteps]
          exact h
  | classDecl name methods => exact getElem?_introduce_ne name h

theorem Param.writeAll_ready (ps : List Param) {table : NameTable}
    (h : ∀ x : String, table[x]? ≠ some false) :
    ∀ x : String, (Step.writeAll table (Param.steps ps))[x]? ≠ some false := by
  induction ps generalizing table with
  | nil => exact h
  | cons p rest ih => exact ih (getElem?_introduce_ne p.name h)

namespace Step

variable {n k : Names}

theorem ready_of_runAll {s : Stmt} (hn : n.Ready) (h : runAll s.steps n = .ok () k) : k.Ready := by
  intro x
  rw [runAll_innermost h]
  exact s.writeAll_ready hn x

end Step

/-- While one more variable is not ready, the others can still be read. -/
theorem Names.Ready.forall_insert_iff {n : Names} (h : n.Ready) (name : String) (names : List String) :
    (∀ x ∈ names, (n.innermost.insert name false)[x]? ≠ some false) ↔ name ∉ names := by
  constructor
  · intro hall hmem
    apply hall name hmem
    simp
  · intro hmem x hx
    have hne : ¬compare name x = .eq := by
      rw [Std.compare_eq_iff_eq]
      rintro rfl
      exact hmem hx
    rw [Std.ExtTreeMap.getElem?_insert, if_neg hne]
    exact h x

/-! ### Names that are new in their scope -/

/-- The names can be declared in the innermost scope one after the other. -/
def Names.Admits (n : Names) (names : List String) : Prop :=
  names.Nodup ∧ ∀ x ∈ names, x ∉ n.innermost

theorem Names.admits_nil (n : Names) : n.Admits [] := by
  simp [Names.Admits]

theorem Names.admits_singleton {n : Names} {name : String} :
    n.Admits [name] ↔ name ∉ n.innermost := by
  simp [Names.Admits]

theorem Names.admits_of_eq_empty {n : Names} (h : n.innermost = ∅) {names : List String} :
    n.Admits names ↔ names.Nodup := by
  simp [Names.Admits, h]

/-- The names of two parts of a scope: those of the second part must not be there before the first, nor be
    declared by it. -/
theorem Names.admits_append {n : Names} {a b : List String} :
    n.Admits (a ++ b) ↔ n.Admits a ∧ b.Nodup ∧ ∀ x ∈ b, ¬(x ∈ n.innermost ∨ x ∈ a) := by
  simp only [Names.Admits, List.nodup_append, List.forall_mem_append, not_or]
  constructor
  · rintro ⟨⟨ha, hb, hapart⟩, hna, hnb⟩
    exact ⟨⟨ha, hna⟩, hb, fun x hx => ⟨hnb x hx, fun hxa => hapart x hxa x hx rfl⟩⟩
  · rintro ⟨⟨ha, hna⟩, hb, hnb⟩
    have hapart : ∀ x ∈ a, ∀ y ∈ b, x ≠ y := by
      rintro x hx y hy rfl
      exact (hnb x hy).2 hx
    exact ⟨⟨ha, hb, hapart⟩, hna, fun x hx => (hnb x hx).1⟩

theorem Names.admits_cons {n : Names} {name : String} {rest : List String} :
    n.Admits (name :: rest) ↔
      name ∉ n.innermost ∧ rest.Nodup ∧ ∀ x ∈ rest, ¬(x ∈ n.innermost ∨ x ∈ [name]) := by
  rw [← Names.admits_singleton]
  exact Names.admits_append (a := [name])

theorem Names.admits_iff_of_mem_iff {n k : Names} {a b : List String}
    (h : ∀ x, x ∈ k.innermost ↔ x ∈ n.innermost ∨ x ∈ a) :
    k.Admits b ↔ b.Nodup ∧ ∀ x ∈ b, ¬(x ∈ n.innermost ∨ x ∈ a) := by
  simp only [Names.Admits, h]

theorem Names.innermost_enter_block (n : Names) (body : List Stmt) :
    (n.enter (.block body)).innermost = ∅ := rfl

theorem Names.innermost_enter_function (n : Names) (kind : FunctionKind) (f : Function) :
    (n.enter (.function kind f)).innermost = ∅ := rfl

/-! ### What the analysis asks -/

/-- What the analysis asks of a part of a program when it knows the names `n`: the part declares `names` in the
    scope around it, `returns` if it has a `return` outside of all functions in it, and is valid inside if
    `inside` holds. -/
def Names.Allows (n : Names) (names : List String) (returns : Bool) (inside : Prop) : Prop :=
  n.Admits names ∧ (returns = true → n.enclosing.isSome = true) ∧ inside

theorem Names.allows_nil {n : Names} {inside : Prop} : n.Allows [] false inside ↔ inside := by
  simp [Names.Allows, Names.admits_nil]

theorem Names.allows_singleton {n : Names} {name : String} {inside : Prop} :
    n.Allows [name] false inside ↔ name ∉ n.innermost ∧ inside := by
  simp [Names.Allows, Names.admits_singleton]

namespace Step

variable {n : Names}

theorem ready_after_expr {e : Expr} {k : Names} (hn : n.Ready) (h : runAll e.steps n = .ok () k) :
    k.Ready := by
  unfold Names.Ready
  rwa [innermost_eq e.marked_steps h]

theorem accepted_locate (n : Names) (name : String) (id : NodeId) : Accepted [.locate name id] n := by
  rw [Accepted, runAll_singleton]
  exact ⟨_, run_locate n⟩

theorem accepted_define (n : Names) (name : String) : Accepted [.define name] n := by
  rw [Accepted, runAll_singleton]
  exact ⟨_, run_define_eq_ok.2 rfl⟩

theorem accepted_exit : Accepted [.exit] n ↔ n.Allows [] true True := by
  simp [Accepted, runAll_singleton, run_exit_eq_ok, Names.Allows, Names.admits_nil]

/-- Steps before one that is always accepted. -/
theorem accepted_append_of_forall {x y : List Step} (hy : ∀ k, Accepted y k) :
    Accepted (x ++ y) n ↔ Accepted x n := by
  rw [accepted_append (C := True) fun k _ => iff_true_intro (hy k), and_true]

/-- Two parts of a scope one after the other: the analysis asks of them together what it asks of the second
    once the first has put its names into the scope. -/
theorem accepted_allows_append {x y : List Step} {a b : List String} {r s : Bool} {V W : Prop}
    (hx : Accepted x n ↔ n.Allows a r V) (hmarked : ∀ z, z ∈ marked x ↔ z ∈ a)
    (hy : ∀ k, runAll x n = .ok () k → (Accepted y k ↔ k.Allows b s W)) :
    Accepted (x ++ y) n ↔ n.Allows (a ++ b) (r || s) (V ∧ W) := by
  have hnext : ∀ k, runAll x n = .ok () k → (Accepted y k ↔
      (b.Nodup ∧ ∀ z ∈ b, ¬(z ∈ n.innermost ∨ z ∈ a)) ∧ (s = true → n.enclosing.isSome = true) ∧ W) := by
    intro k hk
    have hmem : ∀ z, z ∈ k.innermost ↔ z ∈ n.innermost ∨ z ∈ a := by
      intro z
      rw [runAll_innermost hk, mem_writeAll, hmarked]
    rw [hy k hk, Names.Allows, Names.admits_iff_of_mem_iff hmem, runAll_enclosing _ hk]
  rw [accepted_append hnext, hx, Names.Allows, Names.Allows, Names.admits_append, Bool.or_eq_true,
    or_imp]
  grind

end Step

end Kiln
