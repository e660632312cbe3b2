/-
Module: Kiln.Proofs.Scoping.Shadowing
Purpose: Programs without shadowing: no region declares a name that is declared in a region around it, at
  the top level, or before any program. Nobody declares `this` either; that the methods of a class inside
  a method have a `this` of their own does not count.
Main exports: Region.declared, Program.unshadowed, Region.Apart, Step.Meets.apart
-/
import Kiln.Proofs.Scoping.Regions

namespace Kiln

/-- The names that a program declares in the scope of a region. -/
def Region.declared : Region → List String
  | .block body => Stmt.declaredOfAll body
  | .function _ f => f.paramNames ++ Stmt.declaredOfAll f.body
  | .methods _ => []

/-- The names that no program may declare if nothing is to be shadowed. -/
def reservedNames : List String := "this" :: builtinNames

/-- No name stands in both lists. -/
def apart (names others : List String) : Bool := names.all fun x => !others.contains x

theorem apart_iff {names others : List String} :
    apart names others = true ↔ ∀ x ∈ names, x ∉ others := by
  simp [apart]

/-- Besides what is declared in it, the scope of methods holds `this`. -/
theorem Region.mem_names_iff {region : Region} {x : String} :
    x ∈ region.names ↔ x ∈ region.declared ∨ x = "this" ∧ ∃ functions, region = .methods functions := by
  cases region with
  | block body => simp [Region.names, Region.declared]
  | function kind f => simp [Region.names, Region.declared]
  | methods functions => simp [Region.names, Region.declared]

namespace Step

mutual

/-- The regions of a step declare no name of the scopes around them, which declare the names `outer`. -/
def unshadowed (outer : List String) : Step → Bool
  | .within region body =>
    apart region.declared outer && unshadowedOfAll (region.declared ++ outer) body
  | _ => true

/-- The regions of several steps declare no name of the scopes around them. -/
def unshadowedOfAll (outer : List String) : List Step → Bool
  | [] => true
  | step :: rest => step.unshadowed outer && unshadowedOfAll outer rest

end

theorem unshadowedOfAll_append {outer : List String} {a b : List Step} :
    unshadowedOfAll outer (a ++ b) = true ↔
      unshadowedOfAll outer a = true ∧ unshadowedOfAll outer b = true := by
  induction a with
  | nil => simp [unshadowedOfAll]
  | cons step rest ih => simp [unshadowedOfAll, ih, and_assoc]

end Step

/-- No name is declared in two scopes of which one lies around the other. -/
def Program.unshadowed (p : Program) : Bool :=
  apart (Program.declared p) reservedNames &&
    Step.unshadowedOfAll (Program.declared p ++ reservedNames) (Program.steps p)

/-! ### Regions around a point -/

namespace Region

/-- The names that are declared in these regions or are among `outer`. -/
def enclosing (outer : List String) : List Region → List String
  | [] => outer
  | region :: rest => region.declared ++ enclosing outer rest

/-- Each of these regions, of which the innermost comes first, declares none of the names around it. -/
def Apart (outer : List String) : List Region → Prop
  | [] => True
  | region :: rest => (∀ x ∈ region.declared, x ∉ enclosing outer rest) ∧ Apart outer rest

variable {outer : List String} {regions : List Region} {x : String}

theorem mem_enclosing_of_outer (hx : x ∈ outer) : x ∈ enclosing outer regions := by
  induction regions with
  | nil => exact hx
  | cons region rest ih => exact List.mem_append_right _ ih

theorem mem_enclosing {k : Nat} {region : Region} (hk : regions[k]? = some region)
    (hx : x ∈ region.declared) : x ∈ enclosing outer regions := by
  induction regions generalizing k with
  | nil => cases hk
  | cons first rest ih =>
      cases k with
      | zero =>
          cases hk
          exact List.mem_append_left _ hx
      | succ k => exact List.mem_append_right _ (ih hk)

theorem Apart.notMem_outer (h : Apart outer regions) {k : Nat} {region : Region}
    (hk : regions[k]? = some region) (hx : x ∈ region.declared) : x ∉ outer := by
  induction regions generalizing k with
  | nil => cases hk
  | cons first rest ih =>
      cases k with
      | zero =>
          cases hk
          intro houter
          exact h.1 x hx (mem_enclosing_of_outer houter)
      | succ k => exact ih h.2 hk

theorem Apart.notMem_declared (h : Apart outer regions) {k d : Nat} (hkd : k < d)
    {inner region : Region} (hk : regions[k]? = some inner) (hd : regions[d]? = some region)
    (hx : x ∈ inner.declared) : x ∉ region.declared := by
  induction regions generalizing k d with
  | nil => cases hk
  | cons first rest ih =>
      cases d with
      | zero => exact absurd hkd (Nat.not_lt_zero k)
      | succ d =>
          cases k with
          | zero =>
              cases hk
              intro hregion
              exact h.1 x hx (mem_enclosing hd hregion)
          | succ k => exact ih h.2 (Nat.lt_of_succ_lt_succ hkd) hk hd

end Region

/-- The regions around every point of a program without shadowing have names of their own. -/
theorem Step.Meets.apart {all steps : List Step} {names : Names} {regions : List Region}
    {outer : List String} (h : Meets all steps names regions)
    (hall : unshadowedOfAll outer all = true) :
    unshadowedOfAll (Region.enclosing outer regions) steps = true ∧ Region.Apart outer regions := by
  induction h with
  | start => exact ⟨hall, trivial⟩
  | first _ ih => exact ⟨(unshadowedOfAll_append.1 ih.1).1, ih.2⟩
  | next _ _ ih => exact ⟨(unshadowedOfAll_append.1 ih.1).2, ih.2⟩
  | inside _ ih =>
      obtain ⟨hwithin, hregions⟩ := ih
      simp only [unshadowedOfAll, unshadowed, Bool.and_eq_true, and_true] at hwithin
      exact ⟨hwithin.2, apart_iff.1 hwithin.1, hregions⟩

end Kiln
