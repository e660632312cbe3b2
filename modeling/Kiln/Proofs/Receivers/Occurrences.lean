/-
Module: Kiln.Proofs.Receivers.Occurrences
Purpose: Where `this` is written. Each occurrence stands outside all classes or in the body of a method, at any
  depth of blocks and functions; the innermost such method is its owner. The owner can be told from the regions
  in which the analysis meets the occurrence: it is the function that lies directly inside the innermost region
  of a class.
Main exports: Expr.thises, Program.thises, Mention, Step.mentionsOfAll, Region.Owned, Step.Accounts,
  Program.accounts, Step.Meets.mem_mentions
-/
import Kiln.Proofs.Scoping.Regions

namespace Kiln

/-! ### Occurrences in a tree -/

mutual

/-- The occurrences of `this` in an expression, each with the innermost method around it. The first argument
    is the innermost method around the expression, if there is one. -/
def Expr.thises : Option Function → Expr → List (NodeId × Option Function)
  | method, .this id => [(id, method)]
  | method, .binary _ left right | method, .logical _ left right =>
    left.thises method ++ right.thises method
  | method, .unary _ operand => operand.thises method
  | method, .member object _ => object.thises method
  | method, .call callee args => callee.thises method ++ Expr.thisesOfAll method args
  | method, .lambda f => f.thises method
  | _, _ => []

/-- The occurrences of `this` in expressions. -/
def Expr.thisesOfAll : Option Function → List Expr → List (NodeId × Option Function)
  | _, [] => []
  | method, e :: rest => e.thises method ++ Expr.thisesOfAll method rest

/-- The occurrences of `this` in a statement. -/
def Stmt.thises : Option Function → Stmt → List (NodeId × Option Function)
  | method, .expr e => e.thises method
  | method, .declare _ value => value.thises method
  | method, .assign _ value => value.thises method
  | _, .update _ _ => []
  | method, .setMember object _ value => object.thises method ++ value.thises method
  | method, .block body => Stmt.thisesOfAll method body
  | method, .ifElse test thenBranch none => test.thises method ++ thenBranch.thises method
  | method, .ifElse test thenBranch (some elseBranch) =>
    test.thises method ++ (thenBranch.thises method ++ elseBranch.thises method)
  | method, .whileLoop test body => test.thises method ++ body.thises method
  | method, .function f => f.thises method
  | _, .ret none => []
  | method, .ret (some value) => value.thises method
  | _, .classDecl _ methods => Function.thisesOfMethods methods

/-- The occurrences of `this` in statements. -/
def Stmt.thisesOfAll : Option Function → List Stmt → List (NodeId × Option Function)
  | _, [] => []
  | method, s :: rest => s.thises method ++ Stmt.thisesOfAll method rest

/-- The occurrences of `this` in a function. -/
def Function.thises : Option Function → Function → List (NodeId × Option Function)
  | method, ⟨_, _, _, body⟩ => Stmt.thisesOfAll method body

/-- The occurrences of `this` in the methods of a class. -/
def Function.thisesOfMethods : List Function → List (NodeId × Option Function)
  | [] => []
  | m :: rest => m.thises (some m) ++ Function.thisesOfMethods rest

end

/-- The occurrences of `this` in a program. -/
def Program.thises (p : Program) : List (NodeId × Option Function) := Stmt.thisesOfAll none p.statements

/-! ### References and the regions around them -/

/-- A reference, and the regions around it, the innermost first. -/
structure Mention where
  name : String
  id : NodeId
  regions : List Region

namespace Step

mutual

/-- The references of a step that is taken inside these regions. -/
def mentions : List Region → Step → List Mention
  | regions, .locate name id => [⟨name, id, regions⟩]
  | regions, .within region body => mentionsOfAll (region :: regions) body
  | _, _ => []

/-- The references of several steps that are taken inside these regions. -/
def mentionsOfAll : List Region → List Step → List Mention
  | _, [] => []
  | regions, step :: rest => step.mentions regions ++ mentionsOfAll regions rest

end

theorem mentionsOfAll_append (regions : List Region) (a b : List Step) :
    mentionsOfAll regions (a ++ b) = mentionsOfAll regions a ++ mentionsOfAll regions b := by
  induction a with
  | nil => rfl
  | cons step rest ih => simp [mentionsOfAll, ih]

theorem mentionsOfAll_singleton (regions : List Region) (step : Step) :
    mentionsOfAll regions [step] = step.mentions regions := by
  simp [mentionsOfAll]

mutual

theorem ids_mentions : ∀ (regions : List Region) (step : Step),
    (step.mentions regions).map (·.id) = step.references.map (·.id)
  | _, .locate _ _ => rfl
  | regions, .within region body => by
      rw [mentions, ids_mentionsOfAll, ids_within]
  | _, .declare _ | _, .define _ | _, .refuse _ | _, .exit => rfl

/-- The references are those whose ids are listed elsewhere. -/
theorem ids_mentionsOfAll : ∀ (regions : List Region) (steps : List Step),
    (mentionsOfAll regions steps).map (·.id) = idsOfAll steps
  | _, [] => rfl
  | regions, step :: rest => by
      rw [mentionsOfAll, List.map_append, idsOfAll_cons, ids_mentions, ids_mentionsOfAll]

end

/-- What the analysis meets inside some regions is mentioned inside these regions. -/
theorem Meets.mentions_subset {all steps : List Step} {names : Names} {regions : List Region}
    (h : Meets all steps names regions) : mentionsOfAll regions steps ⊆ mentionsOfAll [] all := by
  induction h with
  | start => exact List.Subset.refl _
  | first _ ih =>
      rw [mentionsOfAll_append] at ih
      exact List.Subset.trans (List.subset_append_left _ _) ih
  | next _ _ ih =>
      rw [mentionsOfAll_append] at ih
      exact List.Subset.trans (List.subset_append_right _ _) ih
  | inside _ ih =>
      rw [mentionsOfAll_singleton] at ih
      exact ih

theorem Meets.mem_mentions {all : List Step} {name : String} {id : NodeId} {names : Names}
    {regions : List Region} (h : Meets all [.locate name id] names regions) :
    ⟨name, id, regions⟩ ∈ mentionsOfAll [] all := by
  apply h.mentions_subset
  rw [mentionsOfAll_singleton]
  exact List.mem_cons_self

end Step

/-! ### The owner of a place -/

/-- The innermost method around a place that lies inside these regions, if there is one. No variable or
    parameter of the regions up to it is called `this`. -/
inductive Region.Owned : List Region → Option Function → Prop where
  | top : Owned [] none
  | block {body : List Stmt} {regions : List Region} {method : Option Function}
      (spared : "this" ∉ (Region.block body).names) (around : Owned regions method) :
      Owned (.block body :: regions) method
  | function {f : Function} {regions : List Region} {method : Option Function}
      (spared : "this" ∉ (Region.function .function f).names) (around : Owned regions method) :
      Owned (.function .function f :: regions) method
  | method {m : Function} {methods : List Function} {regions : List Region}
      (spared : "this" ∉ (Region.function .method m).names) (member : m ∈ methods) :
      Owned (.function .method m :: .methods methods :: regions) (some m)

namespace Region.Owned

variable {regions : List Region}

/-- A place has one owner. -/
theorem unique {first second : Option Function} (h : Owned regions first) (h' : Owned regions second) :
    first = second := by
  induction h with
  | top =>
      cases h'
      rfl
  | block _ _ ih =>
      cases h' with
      | block _ around => exact ih around
  | function _ around ih =>
      cases h' with
      | function _ around' => exact ih around'
  | method =>
      cases h' with
      | method => rfl

/-- The owner is the function directly inside the innermost class. -/
theorem exists_method {m : Function} (h : Owned regions (some m)) :
    ∃ k methods, regions[k]? = some (.function .method m) ∧ regions[k + 1]? = some (.methods methods) ∧
      ∀ j ≤ k, ∀ region : Region, regions[j]? = some region → "this" ∉ region.names := by
  generalize howner : some m = owner at h
  induction h with
  | top => cases howner
  | @block body regions method spared _ ih | @function f regions method spared _ ih =>
      obtain ⟨k, methods, hfunction, hmethods, hbefore⟩ := ih howner
      refine ⟨k + 1, methods, hfunction, hmethods, fun j hj region hregion => ?_⟩
      cases j with
      | zero =>
          cases hregion
          exact spared
      | succ j => exact hbefore j (Nat.le_of_succ_le_succ hj) region hregion
  | method spared member =>
      cases howner
      refine ⟨0, _, rfl, rfl, fun j hj region hregion => ?_⟩
      cases Nat.le_zero.1 hj
      cases hregion
      exact spared

/-- Outside all classes no region has a variable called `this`. -/
theorem notMem_names (h : Owned regions none) : ∀ region ∈ regions, "this" ∉ region.names := by
  generalize howner : (none : Option Function) = owner at h
  induction h with
  | top =>
      intro region hregion
      cases hregion
  | block spared _ ih | function spared _ ih =>
      intro region hregion
      rcases List.mem_cons.1 hregion with rfl | hregion
      · exact spared
      · exact ih howner region hregion
  | method => cases howner

end Region.Owned

/-! ### Occurrences and the regions around them -/

/-- The occurrences of `this` listed are the references to `this` of the steps, and each has its owner. -/
structure Step.Accounts (regions : List Region) (steps : List Step)
    (thises : List (NodeId × Option Function)) : Prop where
  listed : ∀ mention ∈ mentionsOfAll regions steps, mention.name = "this" →
    ∃ method, (mention.id, method) ∈ thises ∧ Region.Owned mention.regions method
  mentioned : ∀ id method, (id, method) ∈ thises →
    ∃ around, ⟨"this", id, around⟩ ∈ mentionsOfAll regions steps ∧ Region.Owned around method

namespace Step.Accounts

variable {regions : List Region} {a b : List Step} {s t : List (NodeId × Option Function)}

theorem nil : Accounts regions [] [] where
  listed mention h := by cases h
  mentioned id method h := by cases h

theorem append (ha : Accounts regions a s) (hb : Accounts regions b t) :
    Accounts regions (a ++ b) (s ++ t) where
  listed mention h hname := by
    rw [mentionsOfAll_append] at h
    rcases List.mem_append.1 h with h | h
    · obtain ⟨method, hmem, howned⟩ := ha.listed mention h hname
      exact ⟨method, List.mem_append_left _ hmem, howned⟩
    · obtain ⟨method, hmem, howned⟩ := hb.listed mention h hname
      exact ⟨method, List.mem_append_right _ hmem, howned⟩
  mentioned id method h := by
    rw [mentionsOfAll_append]
    rcases List.mem_append.1 h with h | h
    · obtain ⟨around, hmem, howned⟩ := ha.mentioned id method h
      exact ⟨around, List.mem_append_left _ hmem, howned⟩
    · obtain ⟨around, hmem, howned⟩ := hb.mentioned id method h
      exact ⟨around, List.mem_append_right _ hmem, howned⟩

/-- Steps that refer to nothing called `this`. -/
theorem of_other (h : ∀ mention ∈ mentionsOfAll regions a, mention.name ≠ "this") :
    Accounts regions a [] where
  listed mention hmem hname := absurd hname (h mention hmem)
  mentioned id method hmem := by cases hmem

theorem append_other (ha : Accounts regions a s)
    (h : ∀ mention ∈ mentionsOfAll regions b, mention.name ≠ "this") :
    Accounts regions (a ++ b) s := by
  rw [← List.append_nil s]
  exact ha.append (of_other h)

theorem locate {name : String} (id : NodeId) (hname : name ≠ "this") :
    Accounts regions [.locate name id] [] := by
  apply of_other
  intro mention hmem
  cases List.mem_singleton.1 hmem
  exact hname

theorem this {method : Option Function} (id : NodeId) (owned : Region.Owned regions method) :
    Accounts regions [.locate "this" id] [(id, method)] where
  listed mention h _ := by
    cases List.mem_singleton.1 h
    exact ⟨method, List.mem_cons_self, owned⟩
  mentioned id' method' h := by
    cases List.mem_singleton.1 h
    exact ⟨regions, List.mem_cons_self, owned⟩

/-- A step before others that is no reference. -/
theorem cons {step : Step} (hstep : step.mentions regions = []) (ha : Accounts regions a s) :
    Accounts regions (step :: a) s := by
  have hsame : mentionsOfAll regions (step :: a) = mentionsOfAll regions a := by
    rw [mentionsOfAll, hstep, List.nil_append]
  exact ⟨by rw [hsame]; exact ha.listed, by rw [hsame]; exact ha.mentioned⟩

theorem within {region : Region} (ha : Accounts (region :: regions) a s) :
    Accounts regions [.within region a] s := by
  have hsame : mentionsOfAll regions [.within region a] = mentionsOfAll (region :: regions) a :=
    mentionsOfAll_singleton _ _
  exact ⟨by rw [hsame]; exact ha.listed, by rw [hsame]; exact ha.mentioned⟩

theorem params (ps : List Param) (ha : Accounts regions a s) :
    Accounts regions (Param.steps ps ++ a) s := by
  induction ps with
  | nil => exact ha
  | cons p rest ih => exact .cons rfl (.cons rfl ih)

end Step.Accounts

/-! ### Programs that use `this` for the receiver only -/

/-- What a statement declares is not called `this` if nothing in it is. -/
theorem Stmt.this_notMem_declared : ∀ {s : Stmt}, "this" ∉ s.names → "this" ∉ s.declared
  | .declare name value, h => by
      rw [Stmt.names, List.mem_cons, not_or] at h
      rw [Stmt.declared, List.mem_singleton]
      exact h.1
  | .function f, h => by
      rw [Stmt.declared, List.mem_singleton]
      intro hname
      rcases f.displayName_mem with hmem | hmem
      · exact h (hname ▸ hmem)
      · exact absurd (hname.trans hmem) (by decide)
  | .classDecl name methods, h => by
      rw [Stmt.names, List.mem_cons, not_or] at h
      rw [Stmt.declared, List.mem_singleton]
      exact h.1
  | .ifElse test thenBranch none, h => by
      rw [Stmt.names, List.mem_append, not_or] at h
      rw [Stmt.declared]
      exact Stmt.this_notMem_declared h.2
  | .ifElse test thenBranch (some elseBranch), h => by
      simp only [Stmt.names, List.mem_append, not_or] at h
      rw [Stmt.declared, List.mem_append, not_or]
      exact ⟨Stmt.this_notMem_declared h.1.2, Stmt.this_notMem_declared h.2⟩
  | .whileLoop test body, h => by
      rw [Stmt.names, List.mem_append, not_or] at h
      rw [Stmt.declared]
      exact Stmt.this_notMem_declared h.2
  | .expr _, _ | .assign _ _, _ | .update _ _, _ | .setMember _ _ _, _ | .block _, _ | .ret _, _ => by
      intro hmem
      cases hmem

theorem Stmt.this_notMem_ifElse {test : Expr} {thenBranch : Stmt} {elseBranch : Option Stmt}
    (h : "this" ∉ (Stmt.ifElse test thenBranch elseBranch).names) :
    "this" ∉ test.names ∧ "this" ∉ thenBranch.names ∧ ∀ s, elseBranch = some s → "this" ∉ s.names := by
  cases elseBranch with
  | none =>
      rw [Stmt.names, List.mem_append, not_or] at h
      exact ⟨h.1, h.2, fun _ hs => by cases hs⟩
  | some branch =>
      simp only [Stmt.names, List.mem_append, not_or] at h
      exact ⟨h.1.1, h.1.2, fun _ hs => by cases hs; exact h.2⟩

theorem Stmt.this_notMem_declaredOfAll {ss : List Stmt} (h : "this" ∉ Stmt.namesOfAll ss) :
    "this" ∉ Stmt.declaredOfAll ss := by
  induction ss with
  | nil => exact h
  | cons s rest ih =>
      rw [Stmt.namesOfAll, List.mem_append, not_or] at h
      rw [Stmt.declaredOfAll, List.flatMap_cons, List.mem_append, not_or]
      exact ⟨Stmt.this_notMem_declared h.1, ih h.2⟩

theorem Program.this_notMem_declared {p : Program} (h : "this" ∉ Program.names p) :
    "this" ∉ Program.declared p := by
  have hall := Stmt.this_notMem_declaredOfAll h
  rw [Stmt.declaredOfAll, Program.statements, List.flatMap_map] at hall
  exact hall

theorem Function.this_notMem_names {name : Option String} {params : List Param}
    {returnType : Option String} {body : List Stmt}
    (h : "this" ∉ Function.names ⟨name, params, returnType, body⟩) :
    "this" ∉ params.map (·.name) ∧ "this" ∉ Stmt.namesOfAll body := by
  simp only [Function.names, List.mem_append, not_or] at h
  refine ⟨fun hparam => ?_, h.2⟩
  obtain ⟨p, hp, hname⟩ := List.mem_map.1 hparam
  apply h.1.1.2
  exact List.mem_flatMap.2 ⟨p, hp, hname ▸ List.mem_cons_self⟩

theorem Function.this_notMem_body {f : Function} (h : "this" ∉ f.names) :
    "this" ∉ Stmt.namesOfAll f.body := by
  obtain ⟨name, params, returnType, body⟩ := f
  exact (Function.this_notMem_names h).2

/-- Neither parameters nor variables of a function are called `this`. -/
theorem Function.this_notMem_region {kind : FunctionKind} {f : Function} (h : "this" ∉ f.names) :
    "this" ∉ (Region.function kind f).names := by
  obtain ⟨name, params, returnType, body⟩ := f
  obtain ⟨hparams, hbody⟩ := Function.this_notMem_names h
  rw [Region.names, List.mem_append, not_or]
  exact ⟨hparams, Stmt.this_notMem_declaredOfAll hbody⟩

section Trees

open Step

mutual

/-- The occurrences of `this` in an expression, and their owners. -/
theorem Expr.accounts : ∀ {e : Expr} {regions : List Region} {method : Option Function},
    "this" ∉ e.names → Region.Owned regions method → Accounts regions e.steps (e.thises method)
  | .number _, _, _, _, _ | .text _, _, _, _, _ | .bool _, _, _, _, _ => .nil
  | .var name id, _, _, h, _ => by
      have hname : name ≠ "this" := fun heq => h (heq ▸ List.mem_cons_self)
      exact .cons rfl (.locate id hname)
  | .this id, _, _, _, owned => .this id owned
  | .binary _ left right, _, _, h, owned | .logical _ left right, _, _, h, owned => by
      rw [Expr.names, List.mem_append, not_or] at h
      exact (Expr.accounts h.1 owned).append (Expr.accounts h.2 owned)
  | .unary _ operand, _, _, h, owned => Expr.accounts (e := operand) h owned
  | .member object _, _, _, h, owned => by
      rw [Expr.names, List.mem_append, not_or] at h
      exact Expr.accounts (e := object) h.1 owned
  | .call callee args, _, _, h, owned => by
      rw [Expr.names, List.mem_append, not_or] at h
      exact (Expr.accounts h.1 owned).append (Expr.accountsOfAll h.2 owned)
  | .lambda f, _, _, h, owned =>
      Function.accounts (f := f) h (.function (Function.this_notMem_region h) owned)

theorem Expr.accountsOfAll : ∀ {es : List Expr} {regions : List Region} {method : Option Function},
    "this" ∉ Expr.namesOfAll es → Region.Owned regions method →
      Accounts regions (Expr.stepsOfAll es) (Expr.thisesOfAll method es)
  | [], _, _, _, _ => .nil
  | e :: rest, _, _, h, owned => by
      rw [Expr.namesOfAll, List.mem_append, not_or] at h
      exact (Expr.accounts h.1 owned).append (Expr.accountsOfAll h.2 owned)

/-- The occurrences of `this` in a statement, and their owners. -/
theorem Stmt.accounts : ∀ {s : Stmt} {regions : List Region} {method : Option Function},
    "this" ∉ s.names → Region.Owned regions method → Accounts regions s.steps (s.thises method)
  | .expr e, _, _, h, owned => Expr.accounts (e := e) h owned
  | .declare name value, _, _, h, owned => by
      rw [Stmt.names, List.mem_cons, not_or] at h
      apply Accounts.cons rfl
      apply (Expr.accounts h.2 owned).append_other
      intro mention hmem
      cases hmem
  | .assign target value, _, _, h, owned => by
      rw [Stmt.names, List.mem_cons, not_or] at h
      apply (Expr.accounts h.2 owned).append_other
      intro mention hmem
      cases List.mem_singleton.1 hmem
      exact fun hname => h.1 hname.symm
  | .update target _, _, _, h, _ =>
      .locate target.id fun hname => h (hname ▸ List.mem_cons_self)
  | .setMember object _ value, _, _, h, owned => by
      simp only [Stmt.names, List.mem_append, List.mem_cons, not_or] at h
      exact (Expr.accounts h.1 owned).append (Expr.accounts h.2.2 owned)
  | .block body, _, _, h, owned =>
      .within (Stmt.accountsOfAll (by exact h) (.block (Stmt.this_notMem_declaredOfAll h) owned))
  | .ifElse test thenBranch none, _, _, h, owned => by
      rw [Stmt.names, List.mem_append, not_or] at h
      exact (Expr.accounts h.1 owned).append (Stmt.accounts h.2 owned)
  | .ifElse test thenBranch (some elseBranch), _, _, h, owned => by
      simp only [Stmt.names, List.mem_append, not_or] at h
      have hbranches := (Stmt.accounts h.1.2 owned).append (Stmt.accounts h.2 owned)
      exact (Expr.accounts h.1.1 owned).append hbranches
  | .whileLoop test body, _, _, h, owned => by
      rw [Stmt.names, List.mem_append, not_or] at h
      exact (Expr.accounts h.1 owned).append (Stmt.accounts h.2 owned)
  | .function f, _, _, h, owned =>
      .cons rfl (.cons rfl
        (Function.accounts (f := f) h (.function (Function.this_notMem_region h) owned)))
  | .ret none, _, _, _, _ => .cons rfl .nil
  | .ret (some value), _, _, h, owned => .cons rfl (Expr.accounts (e := value) h owned)
  | .classDecl name methods, _, _, h, _ => by
      rw [Stmt.names, List.mem_cons, not_or] at h
      exact .cons rfl (.cons rfl (.within (Function.accountsOfMethods h.2 fun _ hm => hm)))

theorem Stmt.accountsOfAll : ∀ {ss : List Stmt} {regions : List Region} {method : Option Function},
    "this" ∉ Stmt.namesOfAll ss → Region.Owned regions method →
      Accounts regions (Stmt.stepsOfAll ss) (Stmt.thisesOfAll method ss)
  | [], _, _, _, _ => .nil
  | s :: rest, _, _, h, owned => by
      rw [Stmt.namesOfAll, List.mem_append, not_or] at h
      exact (Stmt.accounts h.1 owned).append (Stmt.accountsOfAll h.2 owned)

/-- The occurrences of `this` in a function, whose owner is known inside it. -/
theorem Function.accounts : ∀ {kind : FunctionKind} {f : Function} {regions : List Region}
    {method : Option Function}, "this" ∉ f.names → Region.Owned (.function kind f :: regions) method →
      Accounts regions (f.steps kind) (f.thises method)
  | _, ⟨_, params, _, _⟩, _, _, h, owned =>
      .within (.params params (Stmt.accountsOfAll (Function.this_notMem_names h).2 owned))

/-- The occurrences of `this` in the methods of a class. Inside each the method itself is the owner. -/
theorem Function.accountsOfMethods :
    ∀ {functions methods : List Function} {regions : List Region},
      "this" ∉ Function.namesOfAll functions → (∀ m ∈ functions, m ∈ methods) →
        Accounts (.methods methods :: regions) (Function.stepsOfAll functions)
          (Function.thisesOfMethods functions)
  | [], _, _, _, _ => .nil
  | m :: rest, methods, regions, h, members => by
      rw [Function.namesOfAll, List.mem_append, not_or] at h
      have howned : Region.Owned (.function .method m :: .methods methods :: regions) (some m) :=
        .method (Function.this_notMem_region h.1) (members m List.mem_cons_self)
      exact (Function.accounts h.1 howned).append (Function.accountsOfMethods h.2
        fun other hother => members other (List.mem_cons_of_mem _ hother))

end

end Trees

/-- The occurrences of `this` in a program, and their owners. -/
theorem Program.accounts {p : Program} (h : "this" ∉ Program.names p) :
    Step.Accounts [] (Program.steps p) (Program.thises p) := by
  rw [Program.steps_eq]
  exact Stmt.accountsOfAll h .top

end Kiln
