/-
Module: Kiln.Proofs.Session.Pieces
Purpose: A program run as a whole, and run in two pieces. The distances of the second piece are known from
  the start when the program is run as a whole, but nothing that the first piece evaluates has one of its
  ids. So the first piece runs in the same way in both cases, and so does the second one after it.
Main exports: Evaluate.program_append, Evaluate.program_extends_of_le, Interpreter.Ends,
  Interpreter.History.run_append_of_ok, Interpreter.History.ends_whole_iff_pieces
-/
import Kiln.Eval.Fuel
import Kiln.Proofs.Scoping.Splitting
import Kiln.Proofs.Session.History

namespace Kiln

namespace Evaluate

/-- The statements of the second piece run after those of the first. -/
theorem program_append (find : Finder) (fuel : Nat) (scope : ScopeId) (first second : Program)
    (w : World) :
    program find fuel scope (first ++ second) w =
      match program find fuel scope first w with
      | .error e w' => .error e w'
      | .ok values w' =>
        match program find fuel scope second w' with
        | .error e w'' => .error e w''
        | .ok others w'' => .ok (values ++ others) w'' := by
  induction first generalizing w with
  | nil =>
      have hnil : program find fuel scope [] w = .ok [] w := rfl
      rw [List.nil_append, hnil]
      simp only
      cases program find fuel scope second w <;> rfl
  | cons node rest ih =>
      rw [List.cons_append, program_cons, program_cons]
      cases stmt find fuel node.value scope w with
      | error e w' => rfl
      | ok c w' =>
          simp only [ih]
          cases program find fuel scope rest w' with
          | error e w'' => rfl
          | ok values w'' =>
              simp only
              cases program find fuel scope second w'' <;> rfl

/-- If a program ends well, then so do its first statement and the others. -/
theorem exists_of_program_cons_eq_ok {find : Finder} {fuel : Nat} {scope : ScopeId} {node : Located Stmt}
    {rest : Program} {w u : World} {values : List Value}
    (h : program find fuel scope (node :: rest) w = .ok values u) :
    ∃ c v others, stmt find fuel node.value scope w = .ok c v ∧
      program find fuel scope rest v = .ok others u ∧ values = c.value :: others := by
  rw [program_cons] at h
  cases hnode : stmt find fuel node.value scope w with
  | error e v =>
      rw [hnode] at h
      cases h
  | ok c v =>
      simp only [hnode] at h
      cases hrest : program find fuel scope rest v with
      | error e v' =>
          rw [hrest] at h
          cases h
      | ok others v' =>
          rw [hrest] at h
          cases h
          exact ⟨c, v, others, rfl, hrest, rfl⟩

/-- If a program ends well, then so do both of its pieces. -/
theorem exists_of_program_append_eq_ok {find : Finder} {fuel : Nat} {scope : ScopeId}
    {first second : Program} {w u : World} {values : List Value}
    (h : program find fuel scope (first ++ second) w = .ok values u) :
    ∃ xs v ys, program find fuel scope first w = .ok xs v ∧
      program find fuel scope second v = .ok ys u ∧ values = xs ++ ys := by
  rw [program_append] at h
  cases hfirst : program find fuel scope first w with
  | error e v =>
      rw [hfirst] at h
      cases h
  | ok xs v =>
      simp only [hfirst] at h
      cases hsecond : program find fuel scope second v with
      | error e v' =>
          rw [hsecond] at h
          cases h
      | ok ys v' =>
          rw [hsecond] at h
          cases h
          exact ⟨xs, v, ys, rfl, hsecond, rfl⟩

/-- If a program fails, then the statements before some point of it end well, and the program that is cut off
    after the next one fails in the same way, on the line of that one. -/
theorem exists_split_of_program_error {find : Finder} {fuel : Nat} {scope : ScopeId} {p : Program}
    {w u : World} {e : Located Halt} (h : program find fuel scope p w = .error e u) :
    ∃ before node after values v, p = before ++ node :: after ∧ e.line = node.line ∧
      program find fuel scope before w = .ok values v ∧
      program find fuel scope (before ++ [node]) w = .error e u := by
  induction p generalizing w with
  | nil => cases h
  | cons node rest ih =>
      rw [program_cons] at h
      cases hnode : stmt find fuel node.value scope w with
      | error cause v =>
          rw [hnode] at h
          cases h
          refine ⟨[], node, rest, [], w, rfl, rfl, rfl, ?_⟩
          rw [List.nil_append, program_cons, hnode]
      | ok c v =>
          simp only [hnode] at h
          cases hrest : program find fuel scope rest v with
          | ok values v' =>
              rw [hrest] at h
              cases h
          | error e' v' =>
              rw [hrest] at h
              cases h
              obtain ⟨before, bad, after, values, v', rfl, hline, hbefore, hbad⟩ := ih hrest
              refine ⟨node :: before, bad, after, c.value :: values, v', rfl, hline, ?_, ?_⟩
              · simp only [program_cons, hnode, hbefore]
              · simp only [List.cons_append, program_cons, hnode, hbad]

/-- A program that ends within some bound ends in the same way within every larger one. -/
theorem program_extends_of_le (find : Finder) {n m : Nat} (h : n ≤ m) (scope : ScopeId) (p : Program)
    (w : World) :
    (∃ line w', program find n scope p w = .error ⟨line, .outOfFuel⟩ w') ∨
      program find m scope p w = program find n scope p w := by
  induction p generalizing w with
  | nil => exact .inr rfl
  | cons node rest ih =>
      rw [program_cons, program_cons]
      rcases stmt_extends_of_le find h node.value scope w with ⟨w', hfuel⟩ | hsame
      · exact .inl ⟨node.line, w', by rw [hfuel]⟩
      · rw [hsame]
        cases stmt find n node.value scope w with
        | error e w' => exact .inr rfl
        | ok c w' =>
            rcases ih w' with ⟨line, w'', hfuel⟩ | hrest
            · exact .inl ⟨line, w'', by simp only [hfuel]⟩
            · exact .inr (by simp only [hrest])

end Evaluate

open Evaluate

namespace Interpreter

/-- Running a program ends with this result and leaves this interpreter behind, within some bound and hence
    within every larger one. -/
def Ends (i : Interpreter) (p : Program) (a : Annotations) (r : Except (Located Halt) (List Value))
    (i' : Interpreter) : Prop :=
  ∃ fuel, i.run fuel p a = (r, i') ∧ ∀ line, r ≠ .error ⟨line, .outOfFuel⟩

/-- A run that gives values has come to its end. -/
theorem ends_of_isOk {i : Interpreter} {p : Program} {a : Annotations} {fuel : Nat}
    (h : (i.run fuel p a).1.isOk = true) : i.Ends p a (i.run fuel p a).1 (i.run fuel p a).2 := by
  refine ⟨fuel, rfl, fun line hfuel => ?_⟩
  rw [hfuel] at h
  cases h

/-- Distances can be learned at once or one table after the other. -/
theorem learn_extend (i : Interpreter) (b c : Annotations) :
    i.learn (b.extend c) = (i.learn b).learn c := by
  have hextend : i.annotations.extend (b.extend c) = (i.annotations.extend b).extend c := by
    apply Annotations.ext_get?
    intro id
    simp only [Annotations.get?_extend, Option.or_assoc]
  rw [learn, hextend]
  rfl

theorem Ends.run_of_le {i i' : Interpreter} {p : Program} {a : Annotations}
    {r : Except (Located Halt) (List Value)} (h : i.Ends p a r i') :
    ∃ fuel, ∀ m, fuel ≤ m → i.run m p a = (r, i') := by
  obtain ⟨fuel, hrun, hend⟩ := h
  refine ⟨fuel, fun m hm => ?_⟩
  rw [run_eq] at hrun ⊢
  rcases program_extends_of_le (i.learn a).finder hm i.globals p i.world with
    ⟨line, w, hfuel⟩ | hsame
  · rw [hfuel] at hrun
    cases hrun
    exact absurd rfl (hend line)
  · rw [hsame]
    exact hrun

namespace History

variable {sink : Sink} {ps : List Program} {i : Interpreter} {first second : Program}
  {b c : Annotations}

section Apart

-- two pieces, of which the second has ids that no reference before it has
variable (h : History sink ps i) (accepted : resolve first = .ok b) (accepted' : resolve second = .ok c)
  (apart : ∀ q ∈ ps ++ [first], ∀ id ∈ Program.ids q, id ∉ Program.ids second)
include h accepted accepted' apart

/-- The first piece runs in the same way if the distances of the second one are known. -/
theorem program_eq_of_apart (fuel : Nat) :
    program (i.learn (b.extend c)).finder fuel i.globals first i.world
      = program (i.learn b).finder fuel i.globals first i.world := by
  have hvisits : ∀ v, ProgramVisits (i.learn b).finder fuel i.globals first i.world v →
      (False ∧ v.found (i.learn b).finder = none) ∨
        v.found (i.learn (b.extend c)).finder = v.found (i.learn b).finder := by
    intro v visits
    obtain ⟨_, names, regions, ⟨q, hq, _, hmeets⟩, _⟩ :=
      (h.referred accepted False (fun strict => strict.elim) visits).2
    have hid : v.id ∉ Program.ids second := apart q hq v.id hmeets.mem_idsOfAll
    have hnone : c.get? v.id = none := get?_eq_none_of_notMem_ids accepted' hid
    right
    simp only [Visit.found, finder, Finder.lexical, learn, Annotations.get?_extend, hnone, Option.none_or]
  rcases program_agree False _ _ fuel _ first _ hvisits with ⟨habsurd, _⟩ | hsame
  · exact habsurd.elim
  · exact hsame

/-- Where the first piece fails, the whole fails in the same way. -/
theorem run_append_of_error {fuel : Nat} {e : Located Halt} {j : Interpreter}
    (hfirst : i.run fuel first b = (.error e, j)) :
    i.run fuel (first ++ second) (b.extend c) = (.error e, j.learn c) := by
  rw [run_eq] at hfirst
  rw [run_eq, program_append, h.program_eq_of_apart accepted accepted' apart, learn_extend]
  cases hp : program (i.learn b).finder fuel i.globals first i.world with
  | ok values w =>
      rw [hp] at hfirst
      cases hfirst
  | error e' w =>
      rw [hp] at hfirst
      cases hfirst
      rfl

/-- Where the first piece succeeds, the whole does as the second piece does after it. -/
theorem run_append_of_ok {fuel : Nat} {xs : List Value} {j k : Interpreter}
    {r : Except (Located Halt) (List Value)}
    (hfirst : i.run fuel first b = (.ok xs, j)) (hsecond : j.run fuel second c = (r, k)) :
    i.run fuel (first ++ second) (b.extend c) = (r.map fun ys => xs ++ ys, k) := by
  rw [run_eq] at hfirst
  rw [run_eq, program_append, h.program_eq_of_apart accepted accepted' apart, learn_extend]
  cases hp : program (i.learn b).finder fuel i.globals first i.world with
  | error e w =>
      rw [hp] at hfirst
      cases hfirst
  | ok values w =>
      rw [hp] at hfirst
      cases hfirst
      simp only
      -- the interpreter between the pieces finds variables as the whole does
      cases hq : program ((i.learn b).learn c).finder fuel i.globals second w with
      | error e w' =>
          have hrun := run_of_program_error (i := { i.learn b with world := w }) (a := c) hq
          rw [hrun] at hsecond
          cases hsecond
          rfl
      | ok ys w' =>
          have hrun := run_of_program_ok (i := { i.learn b with world := w }) (a := c) hq
          rw [hrun] at hsecond
          cases hsecond
          rfl

/-- Where the first piece ends well, the whole ends as the second piece does after it. -/
theorem ends_append_of_ok {xs : List Value} {j k : Interpreter}
    {r : Except (Located Halt) (List Value)} (hfirst : i.Ends first b (.ok xs) j)
    (hsecond : j.Ends second c r k) :
    i.Ends (first ++ second) (b.extend c) (r.map fun ys => xs ++ ys) k := by
  obtain ⟨n, hn⟩ := hfirst.run_of_le
  obtain ⟨m, hm⟩ := hsecond.run_of_le
  obtain ⟨_, _, hend⟩ := hsecond
  refine ⟨max n m, ?_, ?_⟩
  · have hfirst := hn _ (Nat.le_max_left n m)
    have hsecond := hm _ (Nat.le_max_right n m)
    exact h.run_append_of_ok accepted accepted' apart hfirst hsecond
  · intro line
    cases r with
    | ok ys => simp [Except.map]
    | error e => exact hend line

/-- The whole ends well exactly when both pieces do, one after the other. -/
theorem ends_ok_append (values : List Value) (k : Interpreter) :
    i.Ends (first ++ second) (b.extend c) (.ok values) k ↔
      ∃ xs j ys, i.Ends first b (.ok xs) j ∧ j.Ends second c (.ok ys) k ∧ values = xs ++ ys := by
  constructor
  · rintro ⟨fuel, hrun, _⟩
    rcases hfirst : i.run fuel first b with ⟨r, j⟩
    cases r with
    | error e =>
        rw [h.run_append_of_error accepted accepted' apart hfirst] at hrun
        cases hrun
    | ok xs =>
        rcases hsecond : j.run fuel second c with ⟨r', k'⟩
        rw [h.run_append_of_ok accepted accepted' apart hfirst hsecond] at hrun
        cases r' with
        | error e => cases hrun
        | ok ys =>
            cases hrun
            exact ⟨xs, j, ys, ⟨fuel, hfirst, by simp⟩, ⟨fuel, hsecond, by simp⟩, rfl⟩
  · rintro ⟨xs, j, ys, hfirst, hsecond, rfl⟩
    exact h.ends_append_of_ok accepted accepted' apart hfirst hsecond

end Apart

/-- A program can be run as a whole or in two pieces. It is accepted in pieces if it is accepted as a
    whole, and its distances are those of the pieces, which have none in common. Then it ends well exactly
    when both pieces do, with the values of the first and then those of the second, and leaves the same
    interpreter behind. Where the first piece fails the whole fails in the same way; where the second one
    does after it, so does the whole. -/
theorem ends_whole_iff_pieces (h : History sink ps i) {a : Annotations}
    (accepted : resolve (first ++ second) = .ok a) (distinct : (Program.ids (first ++ second)).Nodup)
    (unused : ∀ q ∈ ps, ∀ id ∈ Program.ids q, id ∉ Program.ids (first ++ second)) :
    ∃ b c, resolve first = .ok b ∧ resolve second = .ok c ∧ a = b.extend c ∧
      (∀ id, b.get? id = none ∨ c.get? id = none) ∧
      (∀ values k, i.Ends (first ++ second) a (.ok values) k ↔
        ∃ xs j ys, i.Ends first b (.ok xs) j ∧ j.Ends second c (.ok ys) k ∧ values = xs ++ ys) ∧
      (∀ e j, i.Ends first b (.error e) j → i.Ends (first ++ second) a (.error e) (j.learn c)) ∧
      ∀ xs j e k, i.Ends first b (.ok xs) j → j.Ends second c (.error e) k →
        i.Ends (first ++ second) a (.error e) k := by
  obtain ⟨b, c, hfirst, hsecond, rfl⟩ := resolve_append accepted
  rw [Program.ids_append] at distinct unused
  have hapart := (List.nodup_append.1 distinct).2.2
  have apart : ∀ q ∈ ps ++ [first], ∀ id ∈ Program.ids q, id ∉ Program.ids second := by
    intro q hq id hid hother
    rcases List.mem_append.1 hq with hq | hq
    · exact unused q hq id hid (List.mem_append_right _ hother)
    · cases List.mem_singleton.1 hq
      exact hapart id hid id hother rfl
  refine ⟨b, c, hfirst, hsecond, rfl, ?_, h.ends_ok_append hfirst hsecond apart, ?_, ?_⟩
  · intro id
    by_cases hid : id ∈ Program.ids first
    · right
      apply get?_eq_none_of_notMem_ids hsecond
      intro hother
      exact hapart id hid id hother rfl
    · left
      exact get?_eq_none_of_notMem_ids hfirst hid
  · rintro e j ⟨fuel, hrun, hend⟩
    exact ⟨fuel, h.run_append_of_error hfirst hsecond apart hrun, hend⟩
  · intro xs j e k hends hends'
    exact h.ends_append_of_ok hfirst hsecond apart hends hends'

/-- A line that declares a variable. -/
def numberLine : Program := [⟨0, .declare "n" (.number 21)⟩]

/-- A function that doubles its argument. -/
def doublePiece : Program :=
  [⟨0, .function ⟨some "double", [⟨"x", none⟩], none,
    [.ret (some (.binary .add (.var "x" ⟨0⟩) (.var "x" ⟨1⟩)))]⟩⟩]

/-- A use of the function and of the variable. -/
def usePiece : Program := [⟨3, .expr (.call (.var "double" ⟨2⟩) [.var "n" ⟨3⟩])⟩]

/-- The interpreter after the line with the variable. -/
def afterNumber : Interpreter := ((new default).run 10 numberLine .empty).2

/-- A function can be declared in one piece and used in the next. -/
theorem ends_whole_iff_pieces_of_double : ∃ b c xs j ys k, resolve doublePiece = .ok b ∧
    resolve usePiece = .ok c ∧ afterNumber.Ends doublePiece b (.ok xs) j ∧
    j.Ends usePiece c (.ok ys) k := by
  have history : History default [numberLine] afterNumber := .line .fresh rfl 10
  have accepted : resolve (doublePiece ++ usePiece)
      = .ok ((Annotations.empty.record ⟨0⟩ 0).record ⟨1⟩ 0) := rfl
  obtain ⟨b, c, hfirst, hsecond, _, _, hiff, _⟩ :=
    history.ends_whole_iff_pieces accepted (by decide) (by decide)
  have hok : (afterNumber.run 20 (doublePiece ++ usePiece)
      ((Annotations.empty.record ⟨0⟩ 0).record ⟨1⟩ 0)).1.isOk = true := by
    decide +kernel
  rcases hrun : afterNumber.run 20 (doublePiece ++ usePiece)
    ((Annotations.empty.record ⟨0⟩ 0).record ⟨1⟩ 0) with ⟨r, k⟩
  rw [hrun] at hok
  cases r with
  | error e => cases hok
  | ok values =>
      obtain ⟨xs, j, ys, hends, hends', _⟩ := (hiff values k).1 ⟨20, hrun, by simp⟩
      exact ⟨b, c, xs, j, ys, k, hfirst, hsecond, hends, hends'⟩

end History

end Interpreter

end Kiln
