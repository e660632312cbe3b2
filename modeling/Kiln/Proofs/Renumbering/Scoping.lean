/-
Module: Kiln.Proofs.Renumbering.Scoping
Purpose: The scope analysis of a program with other ids. The analysis never looks at ids, it only notes distances
  under them. So it accepts the program with other ids or rejects it for the same reason on the same line, and
  its distances are the same under the other ids.
Main exports: Annotations.Renumbers, Annotations.Renumbers.size_eq, Step.Matches, resolve_renumber
-/
import Mathlib.Data.List.Nodup
import Kiln.Proofs.Renumbering.Tree
import Kiln.Proofs.Scoping.Steps

namespace Kiln

/-! ### Tables of distances -/

/-- The second table has the distances of the first under other ids, and no more. -/
structure Annotations.Renumbers (f : NodeId → NodeId) (a a' : Annotations) : Prop where
  get?_eq : ∀ id, a'.get? (f id) = a.get? id
  get?_eq_none : ∀ {id}, (∀ other, f other ≠ id) → a'.get? id = none

namespace Annotations.Renumbers

variable {f : NodeId → NodeId} {a a' b b' : Annotations}

theorem empty (f : NodeId → NodeId) : Renumbers f .empty .empty :=
  ⟨fun id => by simp, fun _ => by simp⟩

theorem record (inj : Function.Injective f) (h : Renumbers f a a') (id : NodeId) (d : Nat) :
    Renumbers f (a.record id d) (a'.record (f id) d) := by
  constructor
  · intro other
    simp only [get?_record, h.get?_eq, inj.eq_iff]
  · intro other hother
    rw [get?_record, if_neg (hother id), h.get?_eq_none hother]

theorem extend (h : Renumbers f a a') (later : Renumbers f b b') :
    Renumbers f (a.extend b) (a'.extend b') := by
  constructor
  · intro id
    rw [get?_extend, get?_extend, h.get?_eq, later.get?_eq]
  · intro id hid
    rw [get?_extend, h.get?_eq_none hid, later.get?_eq_none hid]
    rfl

theorem mem_keys_iff {t : Annotations} {i : Nat} : i ∈ t.table.keys ↔ t.get? ⟨i⟩ ≠ none := by
  rw [Std.ExtTreeMap.mem_keys, ← Std.ExtTreeMap.isSome_getElem?_iff_mem, ← Option.isSome_iff_ne_none]
  rfl

/-- As many references have a distance. -/
theorem size_eq (inj : Function.Injective f) (h : Renumbers f a a') : a'.size = a.size := by
  let index : Nat → Nat := fun i => (f ⟨i⟩).index
  have hinj : Function.Injective index := by
    intro i j hij
    have hid : f ⟨i⟩ = f ⟨j⟩ := by
      cases hi : f ⟨i⟩
      cases hj : f ⟨j⟩
      simpa [index, hi, hj] using hij
    cases inj hid
    rfl
  have hperm : a'.table.keys.Perm (a.table.keys.map index) := by
    apply (List.perm_ext_iff_of_nodup a'.table.nodup_keys (List.Nodup.map hinj a.table.nodup_keys)).2
    intro i
    rw [mem_keys_iff, List.mem_map]
    constructor
    · intro hi
      by_cases hrange : ∃ other, f other = ⟨i⟩
      · obtain ⟨⟨j⟩, hj⟩ := hrange
        refine ⟨j, mem_keys_iff.2 ?_, congrArg NodeId.index hj⟩
        rwa [← h.get?_eq, hj]
      · exact absurd (h.get?_eq_none (not_exists.1 hrange)) hi
    · rintro ⟨j, hj, rfl⟩
      have hget := h.get?_eq ⟨j⟩
      rw [show (⟨index j⟩ : NodeId) = f ⟨j⟩ from rfl, hget]
      exact mem_keys_iff.1 hj
  have hlength := hperm.length_eq
  rw [List.length_map, Std.ExtTreeMap.length_keys, Std.ExtTreeMap.length_keys] at hlength
  exact hlength

end Annotations.Renumbers

/-! ### Steps of the analysis -/

/-- The same names are known, and the distances found so far are the same under other ids. -/
structure Names.Renumbers (f : NodeId → NodeId) (n n' : Names) : Prop where
  locals : n'.locals = n.locals
  topLevel : n'.topLevel = n.topLevel
  enclosing : n'.enclosing = n.enclosing
  found : n.found.Renumbers f n'.found

namespace Names.Renumbers

variable {f : NodeId → NodeId} {n n' : Names}

theorem innermost (h : Renumbers f n n') : n'.innermost = n.innermost := by
  rw [Names.innermost, Names.innermost, h.locals, h.topLevel]

theorem distance? (h : Renumbers f n n') (name : String) : n'.distance? name = n.distance? name := by
  rw [Names.distance?, Names.distance?, h.locals]

theorem mark (h : Renumbers f n n') (name : String) (ready : Bool) :
    Renumbers f (n.mark name ready) (n'.mark name ready) := by
  unfold Names.mark
  rw [h.locals]
  cases n.locals with
  | nil => exact ⟨rfl, by rw [h.topLevel], h.enclosing, h.found⟩
  | cons table outer => exact ⟨rfl, h.topLevel, h.enclosing, h.found⟩

theorem push (h : Renumbers f n n') : Renumbers f n.push n'.push :=
  ⟨by rw [Names.push, Names.push, h.locals], h.topLevel, h.enclosing, h.found⟩

theorem pop (h : Renumbers f n n') : Renumbers f n.pop n'.pop :=
  ⟨by rw [Names.pop, Names.pop, h.locals], h.topLevel, h.enclosing, h.found⟩

theorem withEnclosing (h : Renumbers f n n') {kind kind' : Option FunctionKind} (hkind : kind' = kind) :
    Renumbers f { n with enclosing := kind } { n' with enclosing := kind' } :=
  ⟨h.locals, h.topLevel, hkind, h.found⟩

end Names.Renumbers

namespace Resolver

/-- Two outcomes of the analysis: the same names, or the same reason for a rejection. -/
inductive Alike (f : NodeId → NodeId) :
    EStateM.Result ResolveError Names Unit → EStateM.Result ResolveError Names Unit → Prop where
  | ok {n n' : Names} (h : n.Renumbers f n') : Alike f (.ok () n) (.ok () n')
  | error (e : ResolveError) (n n' : Names) : Alike f (.error e n) (.error e n')

/-- The second step does what the first does, under other ids. -/
def Renumbers (f : NodeId → NodeId) (p p' : Resolver Unit) : Prop :=
  ∀ n n' : Names, n.Renumbers f n' → Alike f (p n) (p' n')

namespace Renumbers

variable {f : NodeId → NodeId} {p p' q q' : Resolver Unit}

theorem pure : Renumbers f (pure ()) (pure ()) := fun _ _ h => .ok h

theorem bind (hp : Renumbers f p p') (hq : Renumbers f q q') :
    Renumbers f (p >>= fun _ => q) (p' >>= fun _ => q') := by
  intro n n' h
  have hfirst := hp n n' h
  simp only [Bind.bind, EStateM.bind]
  revert hfirst
  generalize p n = r
  generalize p' n' = r'
  intro hfirst
  cases hfirst with
  | ok h => exact hq _ _ h
  | error e m m' => exact .error e m m'

theorem declare (name : String) : Renumbers f (declare name) (declare name) := by
  intro n n' h
  rw [Resolver.declare, Resolver.get_bind, Resolver.get_bind, h.innermost]
  cases n.innermost.contains name with
  | true => exact .error _ _ _
  | false => exact .ok (h.mark name false)

theorem define (name : String) : Renumbers f (define name) (define name) :=
  fun _ _ h => .ok (h.mark name true)

theorem refuse (name : String) : Renumbers f (refuseSelfReference name) (refuseSelfReference name) := by
  intro n n' h
  rw [refuseSelfReference, Resolver.get_bind, Resolver.get_bind, h.innermost]
  by_cases hready : n.innermost[name]? = some false
  · simp only [hready, if_true]
    exact .error _ _ _
  · simp only [hready, if_false]
    exact .ok h

theorem locate (inj : Function.Injective f) (name : String) (id : NodeId) :
    Renumbers f (locate id name) (locate (f id) name) := by
  intro n n' h
  apply Alike.ok
  simp only [h.distance?]
  cases n.distance? name with
  | none => exact h
  | some d => exact ⟨h.locals, h.topLevel, h.enclosing, h.found.record inj id d⟩

theorem inScope (hp : Renumbers f p p') : Renumbers f (inScope p) (inScope p') := by
  intro n n' h
  have hinside := hp _ _ h.push
  unfold Resolver.inScope around
  revert hinside
  generalize p n.push = r
  generalize p' n'.push = r'
  intro hinside
  cases hinside with
  | ok h => exact .ok h.pop
  | error e m m' => exact .error e _ _

theorem inFunction (hp : Renumbers f p p') (kind : FunctionKind) :
    Renumbers f (inFunction kind p) (inFunction kind p') := by
  intro n n' h
  have hinside := inScope hp _ _ (h.withEnclosing (Eq.refl (some kind)))
  unfold Resolver.inFunction around
  revert hinside
  generalize Resolver.inScope p _ = r
  generalize Resolver.inScope p' _ = r'
  intro hinside
  cases hinside with
  | ok inner => exact .ok (inner.withEnclosing h.enclosing)
  | error e m m' => exact .error e _ _

end Renumbers

end Resolver

namespace Step

open Resolver

/-- The second steps do what the first do, under other ids. -/
def Matches (f : NodeId → NodeId) (x y : List Step) : Prop := Renumbers f (runAll x) (runAll y)

namespace Matches

variable {f : NodeId → NodeId} {x y x' y' : List Step}

theorem nil : Matches f [] [] := Renumbers.pure

theorem append (h : Matches f x y) (h' : Matches f x' y') : Matches f (x ++ x') (y ++ y') := by
  unfold Matches
  rw [runAll_append, runAll_append]
  exact Renumbers.bind h h'

theorem of_run {s s' : Step} (h : Renumbers f s.run s'.run) : Matches f [s] [s'] := by
  unfold Matches
  rwa [runAll_singleton, runAll_singleton]

theorem introduce (name : String) :
    Matches f [.declare name, .define name] [.declare name, .define name] :=
  append (x := [.declare name]) (y := [.declare name]) (of_run (.declare name)) (of_run (.define name))

theorem locate (inj : Function.Injective f) (name : String) (id : NodeId) :
    Matches f [.locate name id] [.locate name (f id)] := of_run (.locate inj name id)

theorem exit : Matches f [.exit] [.exit] := by
  apply of_run
  intro n n' h
  rw [run, Resolver.get_bind, Resolver.get_bind, h.enclosing]
  cases n.enclosing with
  | none => exact .error _ _ _
  | some kind => exact .ok h

theorem params (ps : List Param) : Matches f (Param.steps ps) (Param.steps ps) := by
  induction ps with
  | nil => exact nil
  | cons p rest ih => exact append (introduce p.name) ih

theorem block (h : Matches f x y) (body body' : List Stmt) :
    Matches f [.within (.block body) x] [.within (.block body') y] :=
  of_run (Renumbers.inScope h)

theorem function (h : Matches f x y) (kind : FunctionKind) (g g' : Function) :
    Matches f [.within (.function kind g) x] [.within (.function kind g') y] :=
  of_run (Renumbers.inFunction h kind)

theorem methods (h : Matches f x y) (functions functions' : List Function) :
    Matches f [.within (.methods functions) x] [.within (.methods functions') y] :=
  of_run (Renumbers.inScope (Renumbers.bind (.define "this") h))

end Matches

end Step

open Step

mutual

/-- The analysis of an expression with other ids. -/
theorem Expr.matches_renumber {f : NodeId → NodeId} (inj : Function.Injective f) :
    ∀ e : Expr, Matches f e.steps (e.renumber f).steps
  | .number _ => Matches.nil
  | .text _ => Matches.nil
  | .bool _ => Matches.nil
  | .var name id =>
      Matches.append (x := [.refuse name]) (.of_run (.refuse name)) (.locate inj name id)
  | .this id => Matches.locate inj "this" id
  | .binary _ left right => (Expr.matches_renumber inj left).append (Expr.matches_renumber inj right)
  | .logical _ left right => (Expr.matches_renumber inj left).append (Expr.matches_renumber inj right)
  | .unary _ operand => Expr.matches_renumber inj operand
  | .member object _ => Expr.matches_renumber inj object
  | .call callee args => (Expr.matches_renumber inj callee).append (Expr.matches_renumberAll inj args)
  | .lambda g => Function.matches_renumber inj g

theorem Expr.matches_renumberAll {f : NodeId → NodeId} (inj : Function.Injective f) :
    ∀ es : List Expr, Matches f (Expr.stepsOfAll es) (Expr.stepsOfAll (Expr.renumberAll f es))
  | [] => Matches.nil
  | e :: rest => (Expr.matches_renumber inj e).append (Expr.matches_renumberAll inj rest)

/-- The analysis of a statement with other ids. -/
theorem Stmt.matches_renumber {f : NodeId → NodeId} (inj : Function.Injective f) :
    ∀ s : Stmt, Matches f s.steps (s.renumber f).steps
  | .expr e => Expr.matches_renumber inj e
  | .declare name value =>
      Matches.append (x := [.declare name]) (.of_run (.declare name))
        ((Expr.matches_renumber inj value).append (.of_run (.define name)))
  | .assign target value =>
      (Expr.matches_renumber inj value).append (Matches.locate inj target.name target.id)
  | .update target _ => Matches.locate inj target.name target.id
  | .setMember object _ value =>
      (Expr.matches_renumber inj object).append (Expr.matches_renumber inj value)
  | .block body => (Stmt.matches_renumberAll inj body).block _ _
  | .ifElse test thenBranch none =>
      (Expr.matches_renumber inj test).append (Stmt.matches_renumber inj thenBranch)
  | .ifElse test thenBranch (some elseBranch) =>
      (Expr.matches_renumber inj test).append
        ((Stmt.matches_renumber inj thenBranch).append (Stmt.matches_renumber inj elseBranch))
  | .whileLoop test body => (Expr.matches_renumber inj test).append (Stmt.matches_renumber inj body)
  | .function g => by
      rw [Stmt.steps, Stmt.renumber, Stmt.steps, Function.displayName_renumber]
      exact Matches.append (.introduce g.displayName) (Function.matches_renumber inj g)
  | .ret none => Matches.exit
  | .ret (some value) => Matches.append .exit (Expr.matches_renumber inj value)
  | .classDecl name methods =>
      Matches.append (.introduce name) ((Function.matches_renumberAll inj methods).methods _ _)

theorem Stmt.matches_renumberAll {f : NodeId → NodeId} (inj : Function.Injective f) :
    ∀ ss : List Stmt, Matches f (Stmt.stepsOfAll ss) (Stmt.stepsOfAll (Stmt.renumberAll f ss))
  | [] => Matches.nil
  | s :: rest => (Stmt.matches_renumber inj s).append (Stmt.matches_renumberAll inj rest)

/-- The analysis of a function with other ids. -/
theorem Function.matches_renumber {f : NodeId → NodeId} (inj : Function.Injective f) {kind : FunctionKind} :
    ∀ g : Function, Matches f (g.steps kind) ((g.renumber f).steps kind)
  | ⟨_, params, _, body⟩ =>
      Matches.function ((Matches.params params).append (Stmt.matches_renumberAll inj body)) _ _ _

theorem Function.matches_renumberAll {f : NodeId → NodeId} (inj : Function.Injective f) :
    ∀ gs : List Function,
      Matches f (Function.stepsOfAll gs) (Function.stepsOfAll (Function.renumberAll f gs))
  | [] => Matches.nil
  | g :: rest => (Function.matches_renumber inj g).append (Function.matches_renumberAll inj rest)

end

/-! ### Whole programs -/

/-- Verdicts on two programs: distances that are the same under other ids, or the same rejection. -/
inductive VerdictAlike (f : NodeId → NodeId) :
    Except (Located ResolveError) Annotations → Except (Located ResolveError) Annotations → Prop where
  | ok {a a' : Annotations} (h : a.Renumbers f a') : VerdictAlike f (.ok a) (.ok a')
  | error (e : Located ResolveError) : VerdictAlike f (.error e) (.error e)

/-- The verdict on a program with other ids. -/
theorem resolve_renumber {f : NodeId → NodeId} (inj : Function.Injective f) (p : Program) :
    VerdictAlike f (resolve p) (resolve (p.renumber f)) := by
  have hprogram : ∀ n n' : Names, n.Renumbers f n' →
      (∃ m m', Scoping.program p n = .ok () m ∧ Scoping.program (p.renumber f) n' = .ok () m' ∧
        m.Renumbers f m') ∨
      ∃ e m m', Scoping.program p n = .error e m ∧ Scoping.program (p.renumber f) n' = .error e m' := by
    induction p with
    | nil => exact fun n n' h => .inl ⟨n, n', rfl, rfl, h⟩
    | cons node rest ih =>
        intro n n' h
        have hnode := Stmt.matches_renumber inj node.value n n' h
        simp only [Program.renumber, List.map_cons, Scoping.program, Bind.bind, EStateM.bind,
          EStateM.adaptExcept, Scoping.stmt_eq_runAll]
        revert hnode
        generalize runAll node.value.steps n = r
        generalize runAll (node.value.renumber f).steps n' = r'
        intro hnode
        cases hnode with
        | ok h => exact ih _ _ h
        | error e m m' => exact .inr ⟨_, _, _, rfl, rfl⟩
  have hinitial : Names.initial.Renumbers f .initial := ⟨rfl, rfl, rfl, .empty f⟩
  unfold resolve
  rcases hprogram _ _ hinitial with ⟨m, m', hm, hm', h⟩ | ⟨e, m, m', hm, hm'⟩
  · rw [hm, hm']
    exact .ok h.found
  · rw [hm, hm']
    exact .error e

end Kiln
