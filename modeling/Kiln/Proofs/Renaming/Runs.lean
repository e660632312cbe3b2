/-
Module: Kiln.Proofs.Renaming.Runs
Purpose: Evaluation of a program in which the variables of one scope are renamed. Each part of the renamed
  program passes through worlds that are like those of the part itself, by induction on the bound of the
  run, with one lemma for each function of the evaluator.
Main exports: RunsAlike, RunsAlike.stmt_succ, runs_alike
-/
import Kiln.Eval.Evaluate
import Kiln.Proofs.Renaming.Outcomes

namespace Kiln

open Eval

/-- What is to be shown of each bound: every part of a program runs as the renamed part does. -/
structure RunsAlike (ρ : String → String) (a : Annotations) (globals : ScopeId) (n : Nat) : Prop where
  expr : ∀ {γ : Layout} {scope : ScopeId} {w w' : World} (e : Expr) (site : Site),
    WorldAlike ρ a globals γ w w' → γ.At scope site.distance →
      Alike ρ a globals γ (ValueAlike ρ a) (Evaluate.expr (.lexical globals a) n e scope w)
        (Evaluate.expr (.lexical globals a) n (e.rename ρ a site) scope w')
  exprs : ∀ {γ : Layout} {scope : ScopeId} {w w' : World} (es : List Expr) (site : Site),
    WorldAlike ρ a globals γ w w' → γ.At scope site.distance →
      Alike ρ a globals γ (ValuesAlike ρ a) (Evaluate.exprs (.lexical globals a) n es scope w)
        (Evaluate.exprs (.lexical globals a) n (Expr.renameAll ρ a site es) scope w')
  operand : ∀ {γ : Layout} {scope : ScopeId} {w w' : World} (op : LogicalOp) (e : Expr)
    (site : Site), WorldAlike ρ a globals γ w w' → γ.At scope site.distance →
      Alike ρ a globals γ (fun _ b b' => b' = b)
        (Evaluate.operand (.lexical globals a) n op e scope w)
        (Evaluate.operand (.lexical globals a) n op (e.rename ρ a site) scope w')
  condition : ∀ {γ : Layout} {scope : ScopeId} {w w' : World} (e : Expr) (site : Site),
    WorldAlike ρ a globals γ w w' → γ.At scope site.distance →
      Alike ρ a globals γ (fun _ b b' => b' = b)
        (Evaluate.condition (.lexical globals a) n e scope w)
        (Evaluate.condition (.lexical globals a) n (e.rename ρ a site) scope w')
  call : ∀ {γ : Layout} {v v' : Value} {vs vs' : List Value} {w w' : World},
    WorldAlike ρ a globals γ w w' → ValueAlike ρ a γ v v' → ValuesAlike ρ a γ vs vs' →
      Alike ρ a globals γ (ValueAlike ρ a) (Evaluate.call (.lexical globals a) n v vs w)
        (Evaluate.call (.lexical globals a) n v' vs' w')
  callClosure : ∀ {γ : Layout} {c c' : Closure} {vs vs' : List Value} {w w' : World},
    WorldAlike ρ a globals γ w w' → ValueAlike ρ a γ (.closure c) (.closure c') →
      ValuesAlike ρ a γ vs vs' →
        Alike ρ a globals γ (ValueAlike ρ a) (Evaluate.callClosure (.lexical globals a) n c vs w)
          (Evaluate.callClosure (.lexical globals a) n c' vs' w')
  stmt : ∀ {γ : Layout} {scope : ScopeId} {w w' : World} (s : Stmt) (site : Site),
    WorldAlike ρ a globals γ w w' → γ.At scope site.distance →
      (site.distance = some 0 → ∀ f ∈ s.functionNames, ρ f = f) →
        Alike ρ a globals γ (CompletionAlike ρ a) (Evaluate.stmt (.lexical globals a) n s scope w)
          (Evaluate.stmt (.lexical globals a) n (s.rename ρ a site) scope w')
  stmts : ∀ {γ : Layout} {scope : ScopeId} {w w' : World} (ss : List Stmt) (site : Site),
    WorldAlike ρ a globals γ w w' → γ.At scope site.distance →
      (site.distance = some 0 → ∀ f ∈ Stmt.functionNamesOfAll ss, ρ f = f) →
        Alike ρ a globals γ (CompletionAlike ρ a) (Evaluate.stmts (.lexical globals a) n ss scope w)
          (Evaluate.stmts (.lexical globals a) n (Stmt.renameAll ρ a site ss) scope w')
  loop : ∀ {γ : Layout} {scope : ScopeId} {w w' : World} (test : Expr) (body : Stmt) (site : Site),
    WorldAlike ρ a globals γ w w' → γ.At scope site.distance →
      (site.distance = some 0 → ∀ f ∈ body.functionNames, ρ f = f) →
        Alike ρ a globals γ (CompletionAlike ρ a)
          (Evaluate.loop (.lexical globals a) n test body scope w)
          (Evaluate.loop (.lexical globals a) n (test.rename ρ a (site.child 0))
            (body.rename ρ a (site.child 1)) scope w')

namespace RunsAlike

variable {ρ : String → String} {a : Annotations} {globals scope : ScopeId} {n : Nat} {γ : Layout}
  {w w' : World} {site : Site}

theorem zero : RunsAlike ρ a globals 0 where
  expr _ _ world _ := .outOfFuel world
  exprs _ _ world _ := .outOfFuel world
  operand _ _ _ world _ := .outOfFuel world
  condition _ _ world _ := .outOfFuel world
  call world _ _ := by
    rw [Evaluate.call, Evaluate.call]
    exact .outOfFuel world
  callClosure world _ _ := .outOfFuel world
  stmt _ _ world _ _ := .outOfFuel world
  stmts _ _ world _ _ := .outOfFuel world
  loop _ _ _ world _ _ := .outOfFuel world

/-- A child of a part is evaluated in the scope of the part. -/
theorem at_child (hscope : γ.At scope site.distance) (number : Nat) :
    γ.At scope (site.child number).distance := by
  rwa [Site.distance_child]

theorem expr_succ (exchange : Exchange ρ) (ih : RunsAlike ρ a globals n) (e : Expr) (site : Site)
    (world : WorldAlike ρ a globals γ w w') (hscope : γ.At scope site.distance) :
    Alike ρ a globals γ (ValueAlike ρ a) (Evaluate.expr (.lexical globals a) (n + 1) e scope w)
      (Evaluate.expr (.lexical globals a) (n + 1) (e.rename ρ a site) scope w') := by
  cases e with
  | number value => exact .ok world (.number value)
  | text value => exact .ok world (.text value)
  | bool value => exact .ok world (.bool value)
  | var name id => exact .read world hscope name id
  | this id =>
      have hread := Alike.read world hscope "this" id
      rwa [referAt, exchange.this_eq, ite_self] at hread
  | binary op left right =>
      apply Alike.bind (ih.expr left (site.child 0) world (at_child hscope 0))
      intro δ v v' u u' grows world hv
      apply Alike.bind (ih.expr right (site.child 1) world (at_child (hscope.mono grows) 1))
      intro ε x x' _ _ grows' world hx
      exact .binary world op (hv.mono grows') hx
  | logical op left right =>
      apply Alike.bind (ih.operand op left (site.child 0) world (at_child hscope 0))
      intro δ b b' u u' grows world hb
      subst hb
      cases hdecided : Evaluate.isDecided op b' with
      | true => exact .ok world (.bool b')
      | false =>
          apply Alike.bind (ih.operand op right (site.child 1) world (at_child (hscope.mono grows) 1))
          intro ε x x' _ _ _ world hx
          subst hx
          exact .ok world (.bool x')
  | unary op operand =>
      apply Alike.bind (ih.expr operand (site.child 0) world (at_child hscope 0))
      intro δ v v' _ _ _ world hv
      exact .unary world op hv
  | member object name =>
      apply Alike.bind (ih.expr object (site.child 0) world (at_child hscope 0))
      intro δ v v' _ _ _ world hv
      exact .property exchange world hv name
  | call callee args =>
      apply Alike.bind (ih.expr callee (site.child 0) world (at_child hscope 0))
      intro δ v v' u u' grows world hv
      apply Alike.bind (ih.exprs args (site.child 1) world (at_child (hscope.mono grows) 1))
      intro ε vs vs' _ _ grows' world hvs
      exact ih.call world (hv.mono grows') hvs
  | lambda f =>
      apply Alike.bind (.newClosure world hscope ⟨site, rfl, rfl⟩)
      intro δ c c' _ _ _ world hc
      exact .ok world hc

theorem exprs_succ (ih : RunsAlike ρ a globals n) (es : List Expr) (site : Site)
    (world : WorldAlike ρ a globals γ w w') (hscope : γ.At scope site.distance) :
    Alike ρ a globals γ (ValuesAlike ρ a) (Evaluate.exprs (.lexical globals a) (n + 1) es scope w)
      (Evaluate.exprs (.lexical globals a) (n + 1) (Expr.renameAll ρ a site es) scope w') := by
  cases es with
  | nil => exact .ok world .nil
  | cons e rest =>
      apply Alike.bind (ih.expr e (site.child 0) world (at_child hscope 0))
      intro δ v v' u u' grows world hv
      apply Alike.bind (ih.exprs rest (site.child 1) world (at_child (hscope.mono grows) 1))
      intro ε vs vs' _ _ grows' world hvs
      exact .ok world (.cons (hv.mono grows') hvs)

theorem operand_succ (ih : RunsAlike ρ a globals n) (op : LogicalOp) (e : Expr) (site : Site)
    (world : WorldAlike ρ a globals γ w w') (hscope : γ.At scope site.distance) :
    Alike ρ a globals γ (fun _ b b' => b' = b)
      (Evaluate.operand (.lexical globals a) (n + 1) op e scope w)
      (Evaluate.operand (.lexical globals a) (n + 1) op (e.rename ρ a site) scope w') := by
  apply Alike.bind (ih.expr e site world hscope)
  intro δ v v' _ _ _ world hv
  cases hv with
  | bool b => exact .ok world rfl
  | _ => exact .fail world _

theorem condition_succ (ih : RunsAlike ρ a globals n) (e : Expr) (site : Site)
    (world : WorldAlike ρ a globals γ w w') (hscope : γ.At scope site.distance) :
    Alike ρ a globals γ (fun _ b b' => b' = b)
      (Evaluate.condition (.lexical globals a) (n + 1) e scope w)
      (Evaluate.condition (.lexical globals a) (n + 1) (e.rename ρ a site) scope w') := by
  apply Alike.bind (ih.expr e site world hscope)
  intro δ v v' _ _ _ world hv
  cases hv with
  | bool b => exact .ok world rfl
  | _ => exact .fail world _

theorem call_succ (exchange : Exchange ρ) (ih : RunsAlike ρ a globals n) {v v' : Value}
    {vs vs' : List Value} (world : WorldAlike ρ a globals γ w w') (hv : ValueAlike ρ a γ v v')
    (hvs : ValuesAlike ρ a γ vs vs') :
    Alike ρ a globals γ (ValueAlike ρ a) (Evaluate.call (.lexical globals a) (n + 1) v vs w)
      (Evaluate.call (.lexical globals a) (n + 1) v' vs' w') := by
  cases hv with
  | closure identity known hf => exact ih.callClosure world (.closure identity known hf) hvs
  | builtin f identity => exact .callBuiltin world f hvs
  | @classValue c c' hclass =>
      apply Alike.bind (.newObject world)
      intro δ object object' u u' grows world hobject
      subst hobject
      have hreceiver := ValueAlike.object (hclass.mono grows) object'
      obtain ⟨_, hname, hscope, outer, inner, houter, nested, hinner, hmethods⟩ := hclass
      have hmethod := hmethods "init"
      simp only
      revert hmethod
      generalize c.methods["init"]? = m
      generalize c'.methods["init"]? = m'
      intro hmethod
      cases hmethod with
      | none =>
          have hempty : vs'.isEmpty = vs.isEmpty := by
            cases hvs with
            | nil => rfl
            | cons _ _ => rfl
          simp only [hempty, hname, ← hvs.length_eq]
          split
          · exact .ok world hreceiver
          · exact .fail world _
      | some hf =>
          apply Alike.bind (.bindMethod exchange world hscope (houter.mono grows) nested hinner hf
            hreceiver)
          intro ε bound bound' _ _ grows' world hbound
          apply Alike.bind (ih.callClosure world hbound
            (ValuesAlike.mono (grows.trans grows') hvs))
          intro ζ _ _ _ _ grows'' world _
          exact .ok world (hreceiver.mono (grows'.trans grows''))
  | _ => exact .fail world _

theorem callClosure_succ (exchange : Exchange ρ) (ih : RunsAlike ρ a globals n) {c c' : Closure}
    {vs vs' : List Value} (world : WorldAlike ρ a globals γ w w')
    (hc : ValueAlike ρ a γ (.closure c) (.closure c')) (hvs : ValuesAlike ρ a γ vs vs') :
    Alike ρ a globals γ (ValueAlike ρ a) (Evaluate.callClosure (.lexical globals a) (n + 1) c vs w)
      (Evaluate.callClosure (.lexical globals a) (n + 1) c' vs' w') := by
  cases hc with
  | @closure identity f f' outer d known hf =>
      obtain ⟨site, rfl, rfl⟩ := hf
      have hlength : vs'.length = vs.length := hvs.length_eq.symm
      simp only [Evaluate.callClosure, Function.paramNames_rename, Function.displayName_rename,
        Function.body_rename, List.length_map, hlength]
      split
      · exact .fail world _
      · have nested : Nested site.distance (f.inner ρ site).distance := site.nested_enter ρ _
        apply Alike.bind (.newScope world known nested (.call f) (.call _))
        intro δ scope scope' u u' grows world hscope
        obtain ⟨rfl, hscope⟩ := hscope
        apply Alike.bind (.defineAll exchange world hscope f.paramNames (ValuesAlike.mono grows hvs))
        intro ε _ _ _ _ grows' world _
        refine .bind (ih.stmts f.body (f.inner ρ site) world (hscope.mono grows') ?_) ?_
        · exact fun hd g hg => Site.eq_of_mem_functions hd hg
        · intro ζ completion completion' _ _ _ world hcompletion
          cases hcompletion with
          | normal _ => exact .ok world .void
          | returned hv => exact .ok world hv

/-- The name of a function or class is declared as it is. -/
theorem define_stable (exchange : Exchange ρ) (world : WorldAlike ρ a globals γ w w')
    (hscope : γ.At scope site.distance) {name : String}
    (stable : site.distance = some 0 → ρ name = name) {v v' : Value} (hv : ValueAlike ρ a γ v v') :
    Alike ρ a globals γ (fun _ _ _ => True) (Eval.define scope name v w)
      (Eval.define scope name v' w') := by
  have hdefine := Alike.define exchange world hscope name hv
  rwa [nameAt_eq_self stable] at hdefine

theorem stmt_succ (exchange : Exchange ρ) (ih : RunsAlike ρ a globals n) (s : Stmt) (site : Site)
    (world : WorldAlike ρ a globals γ w w') (hscope : γ.At scope site.distance)
    (stable : site.distance = some 0 → ∀ f ∈ s.functionNames, ρ f = f) :
    Alike ρ a globals γ (CompletionAlike ρ a) (Evaluate.stmt (.lexical globals a) (n + 1) s scope w)
      (Evaluate.stmt (.lexical globals a) (n + 1) (s.rename ρ a site) scope w') := by
  cases s with
  | expr e =>
      apply Alike.bind (ih.expr e (site.child 0) world (at_child hscope 0))
      intro δ v v' _ _ _ world hv
      exact .ok world (.normal hv)
  | declare name e =>
      apply Alike.bind (ih.expr e (site.child 0) world (at_child hscope 0))
      intro δ v v' _ _ grows world hv
      apply Alike.bind (.define exchange world (hscope.mono grows) name hv)
      intro ε _ _ _ _ grows' world _
      exact .ok world (.normal (hv.mono grows'))
  | assign target e =>
      apply Alike.bind (ih.expr e (site.child 0) world (at_child hscope 0))
      intro δ v v' _ _ grows world hv
      apply Alike.bind (.write exchange world (hscope.mono grows) target hv)
      intro ε _ _ _ _ grows' world _
      exact .ok world (.normal (hv.mono grows'))
  | update target op =>
      apply Alike.bind (.read world hscope target.name target.id)
      intro δ old old' _ _ grows world hold
      apply Alike.bind (.binary world op.binary hold (.number 1))
      intro ε new new' _ _ grows' world hnew
      apply Alike.bind (.write exchange world (hscope.mono (grows.trans grows')) target hnew)
      intro ζ _ _ _ _ _ world _
      exact .ok world (.normal .void)
  | setMember object name e =>
      apply Alike.bind (ih.expr object (site.child 0) world (at_child hscope 0))
      intro δ v v' _ _ grows world hv
      cases hv with
      | object hclass id =>
          apply Alike.bind (ih.expr e (site.child 1) world (at_child (hscope.mono grows) 1))
          intro ε v v' _ _ _ world hv
          apply Alike.bind (.setField world id name hv)
          intro ζ _ _ _ _ _ world _
          exact .ok world (.normal .void)
      | _ => exact .fail world _
  | block body =>
      have nested := site.nested_enter ρ (Stmt.functionNamesOfAll body)
      apply Alike.bind (.newScope world hscope nested (.block body) (.block _))
      intro δ inner inner' _ _ _ world hinner
      obtain ⟨rfl, hinner⟩ := hinner
      apply ih.stmts body _ world hinner
      exact fun hd f hf => Site.eq_of_mem_functions hd hf
  | ifElse test thenBranch elseBranch =>
      cases elseBranch with
      | none =>
          apply Alike.bind (ih.condition test (site.child 0) world (at_child hscope 0))
          intro δ b b' _ _ grows world hb
          subst hb
          cases b' with
          | true =>
              apply ih.stmt thenBranch (site.child 1) world (at_child (hscope.mono grows) 1)
              rwa [Site.distance_child]
          | false => exact .ok world (.normal .void)
      | some elseBranch =>
          simp only [Stmt.functionNames, List.forall_mem_append] at stable
          apply Alike.bind (ih.condition test (site.child 0) world (at_child hscope 0))
          intro δ b b' _ _ grows world hb
          subst hb
          cases b' with
          | true =>
              apply ih.stmt thenBranch (site.child 1) world (at_child (hscope.mono grows) 1)
              rw [Site.distance_child]
              exact fun hd => (stable hd).1
          | false =>
              apply ih.stmt elseBranch (site.child 2) world (at_child (hscope.mono grows) 2)
              rw [Site.distance_child]
              exact fun hd => (stable hd).2
  | whileLoop test body => exact ih.loop test body site world hscope stable
  | function f =>
      apply Alike.bind (.newClosure world hscope ⟨site, rfl, rfl⟩)
      intro δ c c' _ _ grows world hc
      simp only [Function.displayName_rename]
      refine .bind (define_stable exchange world (hscope.mono grows)
        (fun hd => stable hd _ List.mem_cons_self) hc) ?_
      intro ε _ _ _ _ _ world _
      exact .ok world (.normal .void)
  | ret value =>
      cases value with
      | none => exact .ok world (.returned .void)
      | some e =>
          apply Alike.bind (ih.expr e (site.child 0) world (at_child hscope 0))
          intro δ v v' _ _ _ world hv
          exact .ok world (.returned hv)
  | classDecl name methods =>
      have stable' : site.distance = some 0 → ρ name = name :=
        fun hd => stable hd name List.mem_cons_self
      apply Alike.bind (define_stable exchange world hscope stable' .void)
      intro δ _ _ _ _ grows world _
      apply Alike.bind (.newIdentity world)
      intro ε identity identity' _ _ grows' world hidentity
      subst hidentity
      have hscope' := hscope.mono (grows.trans grows')
      refine .bind (define_stable exchange world hscope' stable'
        (.classValue (.ofFunctions hscope' identity' name methods))) ?_
      intro ζ _ _ _ _ _ world _
      exact .ok world (.normal .void)

theorem stmts_succ (ih : RunsAlike ρ a globals n) (ss : List Stmt) (site : Site)
    (world : WorldAlike ρ a globals γ w w') (hscope : γ.At scope site.distance)
    (stable : site.distance = some 0 → ∀ f ∈ Stmt.functionNamesOfAll ss, ρ f = f) :
    Alike ρ a globals γ (CompletionAlike ρ a)
      (Evaluate.stmts (.lexical globals a) (n + 1) ss scope w)
      (Evaluate.stmts (.lexical globals a) (n + 1) (Stmt.renameAll ρ a site ss) scope w') := by
  cases ss with
  | nil => exact .ok world (.normal .void)
  | cons s rest =>
      simp only [Stmt.functionNamesOfAll, List.flatMap_cons, List.forall_mem_append] at stable
      refine .bind (ih.stmt s (site.child 0) world (at_child hscope 0) ?_) ?_
      · rw [Site.distance_child]
        exact fun hd => (stable hd).1
      · intro δ c c' _ _ grows world hc
        cases hc with
        | returned hv => exact .ok world (.returned hv)
        | normal hv =>
            apply ih.stmts rest (site.child 1) world (at_child (hscope.mono grows) 1)
            rw [Site.distance_child]
            exact fun hd => (stable hd).2

theorem loop_succ (ih : RunsAlike ρ a globals n) (test : Expr) (body : Stmt) (site : Site)
    (world : WorldAlike ρ a globals γ w w') (hscope : γ.At scope site.distance)
    (stable : site.distance = some 0 → ∀ f ∈ body.functionNames, ρ f = f) :
    Alike ρ a globals γ (CompletionAlike ρ a)
      (Evaluate.loop (.lexical globals a) (n + 1) test body scope w)
      (Evaluate.loop (.lexical globals a) (n + 1) (test.rename ρ a (site.child 0))
        (body.rename ρ a (site.child 1)) scope w') := by
  apply Alike.bind (ih.condition test (site.child 0) world (at_child hscope 0))
  intro δ b b' _ _ grows world hb
  subst hb
  cases b' with
  | false => exact .ok world (.normal .void)
  | true =>
      refine .bind (ih.stmt body (site.child 1) world (at_child (hscope.mono grows) 1) ?_) ?_
      · rwa [Site.distance_child]
      · intro ε c c' _ _ grows' world hc
        cases hc with
        | returned hv => exact .ok world (.returned hv)
        | normal hv => exact ih.loop test body site world (hscope.mono (grows.trans grows')) stable

end RunsAlike

/-- Within every bound, each part of a program runs as the renamed part does. -/
theorem runs_alike {ρ : String → String} (exchange : Exchange ρ) (a : Annotations) (globals : ScopeId)
    (n : Nat) : RunsAlike ρ a globals n := by
  induction n with
  | zero => exact .zero
  | succ n ih =>
      exact {
        expr := ih.expr_succ exchange
        exprs := ih.exprs_succ
        operand := ih.operand_succ
        condition := ih.condition_succ
        call := ih.call_succ exchange
        callClosure := ih.callClosure_succ exchange
        stmt := ih.stmt_succ exchange
        stmts := ih.stmts_succ
        loop := ih.loop_succ }

end Kiln
