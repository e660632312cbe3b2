/-
Module: Kiln.Proofs.Session.SourceOrder
Purpose: The ids of a session of parses. Each parse goes on with the ids where the one before it stopped, also
  when that one was rejected after it had drawn some. As long as the ids do not come round again, all the ids
  of the programs built are different and those of each program follow its source, so that a table of
  distances, which is sorted by ids, lists the references in the order of the source.
Main exports: Reading, readings, drawnByAll, Annotations.toList_eq_filterMap, ascending_readings,
  readings_follow_source
-/
import Kiln.Proofs.Grammar.Numbering
import Kiln.Proofs.Renumbering.Parsing
import Kiln.Proofs.Session.History
import Mathlib.Algebra.Group.Nat.Defs
import Mathlib.Data.List.Sort

namespace Kiln

/-! ### Tables of distances are sorted -/

namespace Annotations

theorem mem_toList {a : Annotations} {id : NodeId} {distance : Nat} :
    (id, distance) ∈ a.toList ↔ a.get? id = some distance := by
  obtain ⟨index⟩ := id
  rw [toList, get?, ← Std.ExtTreeMap.mem_toList_iff_getElem?_eq_some, List.mem_map]
  constructor
  · rintro ⟨entry, hmem, ⟨⟩⟩
    exact hmem
  · intro hmem
    exact ⟨(index, distance), hmem, rfl⟩

theorem increasing_toList (a : Annotations) : a.toList.Pairwise (·.1.index < ·.1.index) := by
  rw [toList, List.pairwise_map]
  exact a.table.ordered_keys_toList.imp fun h => Nat.compare_eq_lt.1 h

/-- Where ids are listed in increasing order and none of the table is missing, the table lists its entries in
    the same order. -/
theorem toList_eq_filterMap {a : Annotations} {ids : List NodeId}
    (increasing : ids.Pairwise (·.index < ·.index)) (all : ∀ id, a.get? id ≠ none → id ∈ ids) :
    a.toList = ids.filterMap fun id => (a.get? id).map (id, ·) := by
  have : Std.Irrefl fun x y : NodeId × Nat => x.1.index < y.1.index := ⟨fun _ => Nat.lt_irrefl _⟩
  have : Std.Antisymm fun x y : NodeId × Nat => x.1.index < y.1.index := ⟨fun _ _ h h' => by omega⟩
  apply a.increasing_toList.eq_of_mem_iff
  · refine increasing.filterMap _ fun id id' hlt entry hentry entry' hentry' => ?_
    obtain ⟨_, -, rfl⟩ := Option.map_eq_some_iff.1 hentry
    obtain ⟨_, -, rfl⟩ := Option.map_eq_some_iff.1 hentry'
    exact hlt
  · rintro ⟨id, distance⟩
    rw [mem_toList, List.mem_filterMap]
    constructor
    · intro hget
      exact ⟨id, all id (by simp [hget]), by simp [hget]⟩
    · rintro ⟨id', -, hentry⟩
      obtain ⟨_, hget, ⟨⟩⟩ := Option.map_eq_some_iff.1 hentry
      exact hget

end Annotations

/-- Only references of the program get distances. -/
theorem mem_sourceIds_of_get?_ne_none {p : Program} {a : Annotations} (accepted : resolve p = .ok a)
    {id : NodeId} (h : a.get? id ≠ none) : id ∈ p.sourceIds := by
  rw [p.sourceIds_perm.mem_iff]
  exact not_imp_comm.1 (get?_eq_none_of_notMem_ids accepted) h

/-! ### Parses in a row -/

/-- Tokens to be parsed when that many ids have been drawn. -/
structure Reading where
  tokens : List Token
  drawn : Nat

/-- The outcome of the parse. -/
def Reading.parse (r : Reading) : Parse := Kiln.parse r.tokens r.drawn

/-- The program that is built, unless the tokens are rejected. -/
def Reading.program? (r : Reading) : Option Program := r.parse.result.toOption

/-- Several lists of tokens are parsed in a row. Each parse goes on with the ids where the one before it
    stopped. -/
def readings (drawn : Nat) : List (List Token) → List Reading
  | [] => []
  | tokens :: rest => ⟨tokens, drawn⟩ :: readings (parse tokens drawn).drawn rest

/-- How many ids have been drawn by the end of the last parse. -/
def drawnByAll (drawn : Nat) : List (List Token) → Nat
  | [] => drawn
  | tokens :: rest => drawnByAll (parse tokens drawn).drawn rest

theorem le_drawnByAll (drawn : Nat) (sources : List (List Token)) :
    drawn ≤ drawnByAll drawn sources := by
  induction sources generalizing drawn with
  | nil => exact Nat.le_refl _
  | cons tokens rest ih => exact Nat.le_trans (le_drawn_parse tokens drawn) (ih _)

theorem Reading.parse_eq_ok {r : Reading} {p : Program} (h : r.program? = some p) :
    r.parse.result = .ok p := by
  rw [program?] at h
  generalize r.parse.result = result at h
  cases result with
  | error e => cases h
  | ok q =>
      cases h
      rfl

/-- No parse of the row has drawn more ids than there are in the end. -/
theorem drawn_le_of_mem_readings {drawn : Nat} {sources : List (List Token)} {r : Reading}
    (hr : r ∈ readings drawn sources) : r.parse.drawn ≤ drawnByAll drawn sources := by
  induction sources generalizing drawn with
  | nil => cases hr
  | cons tokens rest ih =>
      rcases List.mem_cons.1 hr with rfl | hr
      · exact le_drawnByAll _ rest
      · exact ih hr

/-- A single parse of the row. -/
theorem Reading.ascending {r : Reading} {p : Program} (h : r.program? = some p)
    (few : r.parse.drawn ≤ NodeId.count) : Ascending r.drawn r.parse.drawn p.sourceIds :=
  ascending_of_parse (parse_eq_ok h) few

/-- Through all the programs that are built, each id is greater than the one before it. -/
theorem ascending_readings {drawn : Nat} {sources : List (List Token)}
    (few : drawnByAll drawn sources ≤ NodeId.count) :
    Ascending drawn (drawnByAll drawn sources)
      (((readings drawn sources).filterMap Reading.program?).flatMap Program.sourceIds) := by
  induction sources generalizing drawn with
  | nil => exact .nil (Nat.le_refl _)
  | cons tokens rest ih =>
      have hrest := ih few
      have hle : (parse tokens drawn).drawn ≤ drawnByAll drawn (tokens :: rest) := le_drawnByAll _ rest
      cases hprogram : Reading.program? ⟨tokens, drawn⟩ with
      | none =>
          rw [readings, List.filterMap_cons_none hprogram]
          exact (Ascending.nil (le_drawn_parse tokens drawn)).append hrest
      | some p =>
          rw [readings, List.filterMap_cons_some hprogram, List.flatMap_cons]
          exact (Reading.ascending hprogram (Nat.le_trans hle few)).append hrest

/-- In a session of parses that does not run out of ids, all the ids of the programs built are different. Those
    of each program lie between the counts of drawn ids before and after its parse and increase in the
    order of its source; and the distances found for it are listed in this order. -/
theorem readings_follow_source {drawn : Nat} {sources : List (List Token)}
    (few : drawnByAll drawn sources ≤ 2 ^ 32) :
    (((readings drawn sources).filterMap Reading.program?).flatMap Program.sourceIds).Nodup ∧
      ∀ r ∈ readings drawn sources, ∀ p, r.program? = some p →
        (∀ id ∈ p.sourceIds, r.drawn ≤ id.index ∧ id.index < r.parse.drawn) ∧
          p.sourceIds.Pairwise (·.index < ·.index) ∧
          ∀ a, resolve p = .ok a →
            a.toList = p.sourceIds.filterMap fun id => (a.get? id).map (id, ·) := by
  refine ⟨(ascending_readings few).nodup, fun r hr p hp => ?_⟩
  have hascending := Reading.ascending hp (Nat.le_trans (drawn_le_of_mem_readings hr) few)
  refine ⟨hascending.range, hascending.increasing, fun a accepted => ?_⟩
  exact Annotations.toList_eq_filterMap hascending.increasing
    fun id hid => mem_sourceIds_of_get?_ne_none accepted hid

/-- A block with an assignment, then a text that is rejected after its first id, then a variable. -/
theorem readings_follow_source_of_rejected :
    let block : List Token := [⟨.openBrace, "\x7b", 0⟩, ⟨.identifier, "x", 0⟩, ⟨.declare, ":=", 0⟩,
      ⟨.identifier, "y", 0⟩, ⟨.identifier, "x", 0⟩, ⟨.equals, "=", 0⟩, ⟨.identifier, "x", 0⟩,
      ⟨.closeBrace, "\x7d", 0⟩, .eof 0]
    let rejected : List Token := [⟨.identifier, "x", 0⟩, ⟨.binaryOperator, "+", 0⟩, .eof 0]
    let last : List Token := [⟨.identifier, "x", 0⟩, .eof 0]
    (readings 0 [block, rejected, last]).map (fun r => r.program?.map Program.sourceIds) =
        [some [⟨1⟩, ⟨2⟩, ⟨3⟩], none, some [⟨5⟩]] ∧
      [NodeId.mk 1, ⟨2⟩, ⟨3⟩, ⟨5⟩].Nodup ∧
      ∃ p a, (Reading.mk block 0).program? = some p ∧ resolve p = .ok a ∧
        a.toList = [(⟨2⟩, 0), (⟨3⟩, 0)] := by
  intro block rejected last
  have few : drawnByAll 0 [block, rejected, last] ≤ 2 ^ 32 := by decide
  have hblock : (Reading.mk block 0).program? =
      some [⟨0, .block [.declare "x" (.var "y" ⟨1⟩), .assign ⟨"x", ⟨2⟩⟩ (.var "x" ⟨3⟩)]⟩] := rfl
  have accepted :
      resolve [⟨0, .block [.declare "x" (.var "y" ⟨1⟩), .assign ⟨"x", ⟨2⟩⟩ (.var "x" ⟨3⟩)]⟩] =
        .ok ((Annotations.empty.record ⟨3⟩ 0).record ⟨2⟩ 0) := rfl
  obtain ⟨hnodup, hall⟩ := readings_follow_source few
  obtain ⟨-, -, hlist⟩ := hall ⟨block, 0⟩ List.mem_cons_self _ hblock
  refine ⟨rfl, hnodup, _, _, hblock, accepted, ?_⟩
  rw [hlist _ accepted]
  rfl

end Kiln
