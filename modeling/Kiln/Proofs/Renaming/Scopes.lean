/-
Module: Kiln.Proofs.Renaming.Scopes
Purpose: The scopes of a program and their variables. A path leads to the scope of a block or a function, whose
  variables are its parameters and what is declared in it, functions and classes apart. An accepted program
  declares no name twice in one scope, so no variable shares its name with a function or a class. So the
  variables of the scope at the end of the path are the ones that a renaming changes.
Main exports: Region.variableNames, Program.scopeAt?, Step.nodup_declarations,
  Region.Analysed.notMem_functionNames, Program.leads, Program.variableNames_renameVariable
-/
import Kiln.Proofs.Renaming.Scoping
import Kiln.Proofs.Scoping.Regions

namespace Kiln

/-! ### Variables -/

/-- The names of the variables that a statement declares in the scope around it. -/
def Stmt.variableNames : Stmt → List String
  | .declare name _ => [name]
  | .ifElse _ thenBranch none => thenBranch.variableNames
  | .ifElse _ thenBranch (some elseBranch) => thenBranch.variableNames ++ elseBranch.variableNames
  | .whileLoop _ body => body.variableNames
  | _ => []

/-- The names of the variables that statements declare in the scope around them. -/
def Stmt.variableNamesOfAll (ss : List Stmt) : List String := ss.flatMap Stmt.variableNames

namespace Region

/-- The variables of the scope of a region: parameters and what is declared, functions and classes apart. -/
def variableNames : Region → List String
  | .block body => Stmt.variableNamesOfAll body
  | .function _ f => f.paramNames ++ Stmt.variableNamesOfAll f.body
  | .methods _ => []

/-- The functions and classes of the scope of a region. -/
def functionNames : Region → List String
  | .block body => Stmt.functionNamesOfAll body
  | .function _ f => Stmt.functionNamesOfAll f.body
  | .methods _ => []

/-- The steps inside a region. -/
def steps : Region → List Step
  | .block body => Stmt.stepsOfAll body
  | .function _ f => Param.steps f.params ++ Stmt.stepsOfAll f.body
  | .methods functions => Function.stepsOfAll functions

/-- A region after the renaming, if its scope is that of the renaming. -/
def rename (ρ : String → String) (a : Annotations) : Region → Region
  | .block body => .block (Stmt.renameAll ρ a
      (Site.enter ρ (Stmt.functionNamesOfAll body) (.outside [])) body)
  | .function kind f => .function kind (f.rename ρ a (.outside []))
  | .methods functions => .methods functions

end Region

/-! ### The scope at the end of a path -/

mutual

/-- The scope to which a path leads from an expression. -/
def Expr.scopeAt? (path : List Nat) : Expr → Option Region
  | .number _ | .text _ | .bool _ | .var _ _ | .this _ => none
  | .binary _ left right | .logical _ left right =>
    match path with
    | 0 :: path => left.scopeAt? path
    | 1 :: path => right.scopeAt? path
    | _ => none
  | .unary _ operand =>
    match path with
    | 0 :: path => operand.scopeAt? path
    | _ => none
  | .member object _ =>
    match path with
    | 0 :: path => object.scopeAt? path
    | _ => none
  | .call callee args =>
    match path with
    | 0 :: path => callee.scopeAt? path
    | 1 :: path => Expr.scopeIn? path args
    | _ => none
  | .lambda f => f.scopeAt? .function path

/-- The scope to which a path leads from expressions. -/
def Expr.scopeIn? (path : List Nat) : List Expr → Option Region
  | [] => none
  | e :: rest =>
    match path with
    | 0 :: path => e.scopeAt? path
    | 1 :: path => Expr.scopeIn? path rest
    | _ => none

/-- The scope to which a path leads from a statement. -/
def Stmt.scopeAt? (path : List Nat) : Stmt → Option Region
  | .expr value | .declare _ value | .assign _ value | .ret (some value) =>
    match path with
    | 0 :: path => value.scopeAt? path
    | _ => none
  | .update _ _ | .ret none => none
  | .setMember object _ value =>
    match path with
    | 0 :: path => object.scopeAt? path
    | 1 :: path => value.scopeAt? path
    | _ => none
  | .block body =>
    match path with
    | [] => some (.block body)
    | first :: path => Stmt.scopeIn? (first :: path) body
  | .ifElse test thenBranch none =>
    match path with
    | 0 :: path => test.scopeAt? path
    | 1 :: path => thenBranch.scopeAt? path
    | _ => none
  | .ifElse test thenBranch (some elseBranch) =>
    match path with
    | 0 :: path => test.scopeAt? path
    | 1 :: path => thenBranch.scopeAt? path
    | 2 :: path => elseBranch.scopeAt? path
    | _ => none
  | .whileLoop test body =>
    match path with
    | 0 :: path => test.scopeAt? path
    | 1 :: path => body.scopeAt? path
    | _ => none
  | .function f => f.scopeAt? .function path
  | .classDecl _ methods => Function.scopeIn? path methods

/-- The scope to which a path leads from statements. -/
def Stmt.scopeIn? (path : List Nat) : List Stmt → Option Region
  | [] => none
  | s :: rest =>
    match path with
    | 0 :: path => s.scopeAt? path
    | 1 :: path => Stmt.scopeIn? path rest
    | _ => none

/-- The scope to which a path leads from a function of the given kind. -/
def Function.scopeAt? (kind : FunctionKind) (path : List Nat) : Function → Option Region
  | ⟨name, params, returnType, body⟩ =>
    match path with
    | [] => some (.function kind ⟨name, params, returnType, body⟩)
    | first :: path => Stmt.scopeIn? (first :: path) body

/-- The scope to which a path leads from the methods of a class. -/
def Function.scopeIn? (path : List Nat) : List Function → Option Region
  | [] => none
  | f :: rest =>
    match path with
    | 0 :: path => f.scopeAt? .method path
    | 1 :: path => Function.scopeIn? path rest
    | _ => none

end

/-- The scope to which a path leads from the top level. -/
def Program.scopeAt? (path : List Nat) (p : Program) : Option Region := Stmt.scopeIn? path p.statements

/-! ### Names are declared once -/

namespace Step

/-- The names that a step declares in the innermost scope. -/
def declares : Step → List String
  | .declare name => [name]
  | _ => []

/-- The names that several steps declare in the innermost scope. -/
def declarations (steps : List Step) : List String := steps.flatMap declares

@[simp]
theorem declarations_nil : declarations [] = [] := rfl

@[simp]
theorem declarations_cons (step : Step) (rest : List Step) :
    declarations (step :: rest) = step.declares ++ declarations rest := by
  simp [declarations]

@[simp]
theorem declarations_append (x y : List Step) :
    declarations (x ++ y) = declarations x ++ declarations y := by
  simp [declarations]

/-- Steps that put no names into the innermost scope declare none. -/
theorem declarations_eq_nil {steps : List Step} (h : marked steps = []) : declarations steps = [] := by
  induction steps with
  | nil => rfl
  | cons step rest ih =>
      rw [marked_cons, List.append_eq_nil_iff] at h
      rw [declarations_cons, ih h.2, List.append_nil]
      cases step with
      | declare name => cases h.1
      | _ => rfl

/-- Steps that succeed inside some region declare no name twice, and none that is known before. -/
theorem nodup_declarations {steps : List Step} {n m : Names} {table : NameTable}
    {outer : List NameTable} (h : runAll steps n = .ok () m) (hn : n.locals = table :: outer) :
    (declarations steps).Nodup ∧ ∀ x ∈ declarations steps, x ∉ table := by
  induction steps generalizing n table with
  | nil => exact ⟨.nil, nofun⟩
  | cons step rest ih =>
      obtain ⟨k, hk, hm⟩ := runAll_cons_eq_ok.1 h
      rcases run_grows step hk with ⟨hnone, _⟩ | ⟨_, table', _, hn', hk', hgrown⟩
      · rw [hn] at hnone
        cases hnone
      · rw [hn] at hn'
        cases hn'
        obtain ⟨hnodup, hrest⟩ := ih hm hk'
        have hold : ∀ x ∈ declarations rest, x ∉ table :=
          fun x hx hmem => hrest x hx ((hgrown x).2 (.inl hmem))
        cases step with
        | declare name =>
            have hfree := (run_declare_eq_ok.1 hk).1
            have hname : name ∉ table := by
              intro hmem
              have hin : n.innermost.contains name = true := by
                rw [Names.innermost, hn]
                exact hmem
              rw [hfree] at hin
              cases hin
            have hnew : name ∉ declarations rest := fun hx =>
              hrest name hx ((hgrown name).2 (.inr List.mem_cons_self))
            exact ⟨List.nodup_cons.2 ⟨hnew, hnodup⟩, List.forall_mem_cons.2 ⟨hname, hold⟩⟩
        | _ => exact ⟨hnodup, hold⟩

end Step

theorem Param.declarations_steps (ps : List Param) :
    Step.declarations (Param.steps ps) = ps.map (·.name) := by
  induction ps with
  | nil => rfl
  | cons p rest ih => simp [Param.steps, Step.declares, ih]

/-- What a statement declares in the scope around it are variables, functions and classes. -/
theorem Stmt.count_declarations (x : String) (s : Stmt) : (Step.declarations s.steps).count x
    = s.variableNames.count x + s.functionNames.count x := by
  have hexpr : ∀ e : Expr, Step.declarations e.steps = [] :=
    fun e => Step.declarations_eq_nil e.marked_steps
  cases s with
  | expr e => simp [Stmt.steps, Stmt.variableNames, Stmt.functionNames, hexpr]
  | declare name value =>
      simp [Stmt.steps, Stmt.variableNames, Stmt.functionNames, Step.declares, hexpr]
  | assign target value =>
      simp [Stmt.steps, Stmt.variableNames, Stmt.functionNames, Step.declares, hexpr]
  | update target op => rfl
  | setMember object name value => simp [Stmt.steps, Stmt.variableNames, Stmt.functionNames, hexpr]
  | block body => rfl
  | ifElse test thenBranch elseBranch =>
      have hthen := Stmt.count_declarations x thenBranch
      cases elseBranch with
      | none => simpa [Stmt.steps, Stmt.variableNames, Stmt.functionNames, hexpr] using hthen
      | some elseBranch =>
          have helse := Stmt.count_declarations x elseBranch
          simp only [Stmt.steps, Stmt.variableNames, Stmt.functionNames, Step.declarations_append,
            List.count_append, hexpr, List.count_nil]
          omega
  | whileLoop test body =>
      have hbody := Stmt.count_declarations x body
      simpa [Stmt.steps, Stmt.variableNames, Stmt.functionNames, hexpr] using hbody
  | function f =>
      have hf : Step.declarations (f.steps .function) = [] := Step.declarations_eq_nil f.marked_steps
      simp [Stmt.steps, Stmt.variableNames, Stmt.functionNames, Step.declares, hf]
  | ret value =>
      cases value with
      | none => rfl
      | some value => simp [Stmt.steps, Stmt.variableNames, Stmt.functionNames, Step.declares, hexpr]
  | classDecl name methods =>
      simp [Stmt.steps, Stmt.variableNames, Stmt.functionNames, Step.declares]

theorem Stmt.count_declarationsOfAll (x : String) (ss : List Stmt) :
    (Step.declarations (Stmt.stepsOfAll ss)).count x
      = (Stmt.variableNamesOfAll ss).count x + (Stmt.functionNamesOfAll ss).count x := by
  induction ss with
  | nil => rfl
  | cons s rest ih =>
      have hs := Stmt.count_declarations x s
      simp only [Stmt.variableNamesOfAll, Stmt.functionNamesOfAll] at ih
      simp only [Stmt.stepsOfAll, Stmt.variableNamesOfAll, Stmt.functionNamesOfAll, List.flatMap_cons,
        Step.declarations_append, List.count_append]
      omega

namespace Region

/-- The inside of the region has been analysed with success. -/
def Analysed (region : Region) : Prop :=
  ∃ (n m : Names), Step.runAll region.steps (n.enter region) = .ok () m

theorem count_declarations (x : String) (region : Region) :
    (Step.declarations region.steps).count x
      = region.variableNames.count x + region.functionNames.count x := by
  cases region with
  | block body => exact Stmt.count_declarationsOfAll x body
  | function kind f =>
      have hbody := Stmt.count_declarationsOfAll x f.body
      simp only [steps, variableNames, functionNames, Step.declarations_append, List.count_append,
        Param.declarations_steps, Function.paramNames]
      omega
  | methods functions =>
      have hmethods := Step.declarations_eq_nil (Function.marked_stepsOfAll functions)
      simp [steps, variableNames, functionNames, hmethods]

/-- No variable of a scope shares its name with a function or a class of the scope. -/
theorem Analysed.notMem_functionNames {region : Region} (h : region.Analysed) {x : String}
    (hx : x ∈ region.variableNames) : x ∉ region.functionNames := by
  intro hf
  obtain ⟨n, m, hrun⟩ := h
  obtain ⟨table, htable⟩ := n.locals_enter region
  have honce := List.nodup_iff_count.1 (Step.nodup_declarations hrun htable).1 x
  rw [region.count_declarations x] at honce
  have hvariable := List.count_pos_iff.2 hx
  have hfunction := List.count_pos_iff.2 hf
  omega

end Region

/-! ### Paths -/

theorem Program.statements_rename (ρ : String → String) (a : Annotations) (site : Site) (p : Program) :
    (Program.rename ρ a site p).statements = Stmt.renameAll ρ a site p.statements := by
  induction p generalizing site with
  | nil => rfl
  | cons node rest ih => exact congrArg (node.value.rename ρ a (site.child 0) :: ·) (ih _)

/-- A path leads to `region` in a tree with these steps, and to `found` in the renamed tree: that is the renamed
    region, and the region has been analysed if the steps succeed. -/
structure Leads (ρ : String → String) (a : Annotations) (steps : List Step) (region : Region)
    (found : Option Region) : Prop where
  found_eq : found = some (region.rename ρ a)
  analysed : ∀ {n m : Names}, Step.runAll steps n = .ok () m → region.Analysed

namespace Leads

variable {ρ : String → String} {a : Annotations} {x y : List Step} {region : Region}
  {found : Option Region}

theorem left (h : Leads ρ a x region found) : Leads ρ a (x ++ y) region found where
  found_eq := h.found_eq
  analysed run := by
    obtain ⟨k, hk, _⟩ := Step.runAll_append_eq_ok.1 run
    exact h.analysed hk

theorem right (h : Leads ρ a y region found) : Leads ρ a (x ++ y) region found where
  found_eq := h.found_eq
  analysed run := by
    obtain ⟨k, _, hm⟩ := Step.runAll_append_eq_ok.1 run
    exact h.analysed hm

theorem inside {inner : Region} (h : Leads ρ a x region found) :
    Leads ρ a [.within inner x] region found where
  found_eq := h.found_eq
  analysed run := by
    rw [Step.runAll_singleton] at run
    obtain ⟨k, hk, _⟩ := Step.run_within_eq_ok.1 run
    exact h.analysed hk

/-- The path ends at the region. -/
theorem here (region : Region) :
    Leads ρ a [.within region region.steps] region (some (region.rename ρ a)) where
  found_eq := rfl
  analysed := by
    intro n m run
    rw [Step.runAll_singleton] at run
    obtain ⟨k, hk, _⟩ := Step.run_within_eq_ok.1 run
    exact ⟨n, k, hk⟩

end Leads

section Paths

variable {ρ : String → String} {a : Annotations} {region : Region}

mutual

theorem Expr.leads : ∀ {e : Expr} {path : List Nat}, e.scopeAt? path = some region →
    Leads ρ a e.steps region ((e.rename ρ a (.outside path)).scopeAt? path)
  | .binary op left right, path, h => by
      simp only [Expr.scopeAt?] at h
      split at h
      · exact (left.leads h).left
      · exact (right.leads h).right
      · cases h
  | .logical op left right, path, h => by
      simp only [Expr.scopeAt?] at h
      split at h
      · exact (left.leads h).left
      · exact (right.leads h).right
      · cases h
  | .unary op operand, path, h => by
      simp only [Expr.scopeAt?] at h
      split at h
      · exact operand.leads h
      · cases h
  | .member object property, path, h => by
      simp only [Expr.scopeAt?] at h
      split at h
      · exact object.leads h
      · cases h
  | .call callee args, path, h => by
      simp only [Expr.scopeAt?] at h
      split at h
      · exact (callee.leads h).left
      · exact (Expr.leadsIn h).right
      · cases h
  | .lambda f, path, h => f.leads h

theorem Expr.leadsIn : ∀ {es : List Expr} {path : List Nat}, Expr.scopeIn? path es = some region →
    Leads ρ a (Expr.stepsOfAll es) region
      (Expr.scopeIn? path (Expr.renameAll ρ a (.outside path) es))
  | e :: rest, path, h => by
      simp only [Expr.scopeIn?] at h
      split at h
      · exact (e.leads h).left
      · exact (Expr.leadsIn h).right
      · cases h

theorem Stmt.leads : ∀ {s : Stmt} {path : List Nat}, s.scopeAt? path = some region →
    Leads ρ a s.steps region ((s.rename ρ a (.outside path)).scopeAt? path)
  | .expr e, path, h => by
      simp only [Stmt.scopeAt?] at h
      split at h
      · exact e.leads h
      · cases h
  | .declare name value, path, h => by
      simp only [Stmt.scopeAt?] at h
      split at h
      · exact Leads.right (x := [.declare name]) (value.leads h).left
      · cases h
  | .assign target value, path, h => by
      simp only [Stmt.scopeAt?] at h
      split at h
      · exact (value.leads h).left
      · cases h
  | .setMember object property value, path, h => by
      simp only [Stmt.scopeAt?] at h
      split at h
      · exact (object.leads h).left
      · exact (value.leads h).right
      · cases h
  | .block body, path, h => by
      simp only [Stmt.scopeAt?] at h
      split at h
      · cases h
        exact .here (.block body)
      · exact (Stmt.leadsIn h).inside
  | .ifElse test thenBranch none, path, h => by
      simp only [Stmt.scopeAt?] at h
      split at h
      · exact (test.leads h).left
      · exact (thenBranch.leads h).right
      · cases h
  | .ifElse test thenBranch (some elseBranch), path, h => by
      simp only [Stmt.scopeAt?] at h
      split at h
      · exact (test.leads h).left
      · exact (thenBranch.leads h).left.right
      · exact (elseBranch.leads h).right.right
      · cases h
  | .whileLoop test body, path, h => by
      simp only [Stmt.scopeAt?] at h
      split at h
      · exact (test.leads h).left
      · exact (body.leads h).right
      · cases h
  | .function f, path, h =>
      Leads.right (x := [.declare f.displayName, .define f.displayName]) (f.leads h)
  | .ret (some value), path, h => by
      simp only [Stmt.scopeAt?] at h
      split at h
      · exact Leads.right (x := [.exit]) (value.leads h)
      · cases h
  | .classDecl name methods, path, h =>
      Leads.right (x := [.declare name, .define name]) (Function.leadsIn h).inside

theorem Stmt.leadsIn : ∀ {ss : List Stmt} {path : List Nat}, Stmt.scopeIn? path ss = some region →
    Leads ρ a (Stmt.stepsOfAll ss) region
      (Stmt.scopeIn? path (Stmt.renameAll ρ a (.outside path) ss))
  | s :: rest, path, h => by
      simp only [Stmt.scopeIn?] at h
      split at h
      · exact (s.leads h).left
      · exact (Stmt.leadsIn h).right
      · cases h

theorem Function.leads : ∀ {kind : FunctionKind} {f : Function} {path : List Nat},
    f.scopeAt? kind path = some region →
      Leads ρ a (f.steps kind) region ((f.rename ρ a (.outside path)).scopeAt? kind path)
  | kind, ⟨name, params, returnType, body⟩, path, h => by
      simp only [Function.scopeAt?] at h
      split at h
      · cases h
        exact .here (.function kind ⟨name, params, returnType, body⟩)
      · exact (Stmt.leadsIn h).right.inside

theorem Function.leadsIn : ∀ {fs : List Function} {path : List Nat},
    Function.scopeIn? path fs = some region →
      Leads ρ a (Function.stepsOfAll fs) region
        (Function.scopeIn? path (Function.renameAll ρ a (.outside path) fs))
  | f :: rest, path, h => by
      simp only [Function.scopeIn?] at h
      split at h
      · exact (f.leads h).left
      · exact (Function.leadsIn h).right
      · cases h

end

theorem Program.leads {p : Program} {path : List Nat} (h : p.scopeAt? path = some region) :
    Leads ρ a (Program.steps p) region ((Program.rename ρ a (.outside path) p).scopeAt? path) := by
  rw [Program.steps_eq, Program.scopeAt?, Program.statements_rename]
  exact Stmt.leadsIn h

end Paths

/-! ### The variables of a renamed scope -/

section Renamed

variable {ρ : String → String} {a : Annotations}

/-- A statement that lies directly in the scope of the renaming declares its variables under their new
    names. -/
theorem Stmt.variableNames_rename : ∀ (s : Stmt) (site : Site), site.distance = some 0 →
    (s.rename ρ a site).variableNames = s.variableNames.map ρ
  | .declare name value, site, hsite => by simp [Stmt.rename, Stmt.variableNames, nameAt, hsite]
  | .ifElse test thenBranch none, site, hsite => by
      have hthen := thenBranch.variableNames_rename (site.child 1) (by simpa using hsite)
      rw [Stmt.rename, Stmt.variableNames, Stmt.variableNames, hthen]
  | .ifElse test thenBranch (some elseBranch), site, hsite => by
      have hthen := thenBranch.variableNames_rename (site.child 1) (by simpa using hsite)
      have helse := elseBranch.variableNames_rename (site.child 2) (by simpa using hsite)
      rw [Stmt.rename, Stmt.variableNames, Stmt.variableNames, hthen, helse, List.map_append]
  | .whileLoop test body, site, hsite => by
      have hbody := body.variableNames_rename (site.child 1) (by simpa using hsite)
      rw [Stmt.rename, Stmt.variableNames, Stmt.variableNames, hbody]
  | .expr _, _, _ => rfl
  | .assign _ _, _, _ => rfl
  | .update _ _, _, _ => rfl
  | .setMember _ _ _, _, _ => rfl
  | .block _, _, _ => rfl
  | .function _, _, _ => rfl
  | .ret none, _, _ => rfl
  | .ret (some _), _, _ => rfl
  | .classDecl _ _, _, _ => rfl

theorem Stmt.variableNamesOfAll_rename (ss : List Stmt) (site : Site)
    (hsite : site.distance = some 0) :
    Stmt.variableNamesOfAll (Stmt.renameAll ρ a site ss) = (Stmt.variableNamesOfAll ss).map ρ := by
  induction ss generalizing site with
  | nil => rfl
  | cons s rest ih =>
      have hfirst := s.variableNames_rename (ρ := ρ) (a := a) (site.child 0) (by simpa using hsite)
      have hrest := ih (site.child 1) (by simpa using hsite)
      unfold Stmt.variableNamesOfAll at hrest ⊢
      rw [Stmt.renameAll, List.flatMap_cons, List.flatMap_cons, hfirst, hrest, List.map_append]

/-- If the functions and classes of the scope keep their names, then all its variables get their new ones. -/
theorem Region.variableNames_rename {region : Region} (h : ∀ f ∈ region.functionNames, ρ f = f) :
    (region.rename ρ a).variableNames = region.variableNames.map ρ := by
  cases region with
  | block body =>
      have hsite : Site.enter ρ (Stmt.functionNamesOfAll body) (.outside []) = .inside 0 :=
        Site.enter_end h
      rw [Region.rename, hsite]
      exact Stmt.variableNamesOfAll_rename body (.inside 0) rfl
  | function kind f =>
      have hsite : f.inner ρ (.outside []) = .inside 0 := Site.enter_end h
      have hbody := Stmt.variableNamesOfAll_rename (ρ := ρ) (a := a) f.body (.inside 0) rfl
      rw [Region.rename, Region.variableNames, Region.variableNames, Function.paramNames_rename,
        Function.body_rename, hsite, hbody, List.map_append]
      rfl
  | methods functions => rfl

end Renamed

/-- Renaming a variable of a scope gives the scope its variables under the same names, but for that one. -/
theorem Program.variableNames_renameVariable {p : Program} {a : Annotations}
    (accepted : resolve p = .ok a) {path : List Nat} {region : Region}
    (scope : p.scopeAt? path = some region) {x : String} (hx : x ∈ region.variableNames) (y : String) :
    ∃ region', (p.renameVariable a path x y).scopeAt? path = some region' ∧
      region'.variableNames = region.variableNames.map fun name => if name = x then y else name := by
  obtain ⟨last, hlast, _⟩ := (resolve_eq_ok_iff p a).1 accepted
  have leads := Program.leads (ρ := fun name => if name = x then y else name) (a := a) scope
  have hfunctions := (leads.analysed hlast).notMem_functionNames hx
  refine ⟨_, leads.found_eq, Region.variableNames_rename ?_⟩
  intro f hf
  apply if_neg
  rintro rfl
  exact hfunctions hf

end Kiln
