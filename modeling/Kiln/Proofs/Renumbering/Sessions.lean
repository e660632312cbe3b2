/-
Module: Kiln.Proofs.Renumbering.Sessions
Purpose: A rejected line leaves no trace. It uses up ids, so all later lines are read with other ids; but
  what is seen of a session is the same under other ids. Two sessions that differ in their ids only answer
  every line alike, and differ in their ids only after it.
Main exports: Reply, Session.transcript, Session.Renumbers, Session.Renumbers.reply,
  Session.rejected_leaves_no_trace
-/
import Kiln.Proofs.Renumbering.Parsing
import Kiln.Proofs.Renumbering.Running
import Kiln.Proofs.Session.Lines
import Mathlib.Algebra.Group.Nat.Defs

namespace Kiln

open Kiln.Text

/-! ### What is seen of a session -/

/-- How a value is shown: as `print` writes it, as an interactive session echoes it, and in the debugging
    form. -/
structure Shown where
  text : String
  echo : String
  debug : String
deriving DecidableEq, Repr, Inhabited

/-- What is seen of a line. -/
structure Reply where
  /-- The bytes that the line has printed. -/
  printed : ByteArray
  /-- The values of the top-level statements, or the line and message of the problem. -/
  outcome : Palette → Except (Nat × String) (List Shown)
  /-- How many references of all lines so far have a distance. -/
  annotations : Nat

namespace Session

/-- How the result of a line is shown. -/
def shown (s : Session) (palette : Palette) :
    Except Problem (List Value) → Except (Nat × String) (List Shown)
  | .ok values => .ok (values.map fun v =>
      ⟨v.display, v.echo palette, s.interpreter.world.store.debug v⟩)
  | .error problem => .error (problem.line, problem.message palette)

/-- What is seen of a line, and the session after it. -/
def reply (s : Session) (line : Line) : Reply × Session :=
  let (result, later) := s.submit line.fuel line.source
  (⟨later.output.extract s.output.size later.output.size, fun palette => later.shown palette result,
    later.interpreter.annotations.size⟩, later)

/-- What is seen of each of some lines. -/
def transcript (s : Session) : List Line → List Reply
  | [] => []
  | line :: lines => (s.reply line).1 :: (s.reply line).2.transcript lines

theorem transcript_append (s : Session) (first second : List Line) :
    s.transcript (first ++ second) = s.transcript first ++ (s.after first).transcript second := by
  induction first generalizing s with
  | nil => rfl
  | cons line rest ih => exact congrArg ((s.reply line).1 :: ·) (ih (s.reply line).2)

theorem length_transcript (s : Session) (lines : List Line) :
    (s.transcript lines).length = lines.length := by
  induction lines generalizing s with
  | nil => rfl
  | cons line rest ih => exact congrArg (· + 1) (ih (s.reply line).2)

/-! ### Sessions with other ids -/

/-- The result of a program with other ids. -/
def renumberResult (f : NodeId → NodeId) :
    Except (Located Halt) (List Value) → Except (Located Halt) (List Value)
  | .ok values => .ok (values.map (Value.renumber f))
  | .error e => .error ⟨e.line, e.value.renumber f⟩

/-- The second session is the first with other ids, `k` more of which have been drawn. -/
structure Renumbers (f : NodeId → NodeId) (k : Nat) (s s' : Session) : Prop where
  drawn : s'.drawn = s.drawn + k
  world : s'.interpreter.world = s.interpreter.world.renumber f
  globals : s'.interpreter.globals = s.interpreter.globals
  annotations : s.interpreter.annotations.Renumbers f s'.interpreter.annotations

namespace Renumbers

variable {f : NodeId → NodeId} {k : Nat} {s s' : Session}

theorem output (h : Renumbers f k s s') : s'.output = s.output := by
  rw [Session.output, h.world]
  rfl

/-- Programs of the two sessions that differ in their ids only do the same. -/
theorem run (h : Renumbers f k s s') {p : Program} {a a' : Annotations}
    (ha : a.Renumbers f a') (fuel drawn : Nat) :
    Renumbers f k ⟨(s.interpreter.run fuel p a).2, drawn⟩
        ⟨(s'.interpreter.run fuel (p.renumber f) a').2, drawn + k⟩ ∧
      (s'.interpreter.run fuel (p.renumber f) a').1 =
        renumberResult f (s.interpreter.run fuel p a).1 := by
  have hlearned : (s.interpreter.learn a).annotations.Renumbers f
      (s'.interpreter.learn a').annotations := h.annotations.extend ha
  have hfind := Finder.renumbers_lexical hlearned s.interpreter.globals
  have hprogram := Evaluate.program_renumber hfind fuel s.interpreter.globals p s.interpreter.world
  unfold Interpreter.run Interpreter.finder
  simp only [Interpreter.learn, h.globals, h.world] at hprogram hlearned ⊢
  rw [hprogram]
  cases Evaluate.program _ fuel s.interpreter.globals p s.interpreter.world with
  | ok values w => exact ⟨⟨rfl, rfl, rfl, hlearned⟩, rfl⟩
  | error e w => exact ⟨⟨rfl, rfl, rfl, hlearned⟩, rfl⟩

/-- Results that differ in ids only are shown alike. -/
theorem shown_eq (h : Renumbers f k s s') (palette : Palette)
    (result : Except (Located Halt) (List Value)) :
    s'.shown palette ((renumberResult f result).mapError .ofHalt) =
      s.shown palette (result.mapError .ofHalt) := by
  cases result with
  | ok values =>
      simp only [renumberResult, Except.mapError, Session.shown, h.world, World.renumber, List.map_map,
        Function.comp_def, Value.display_renumber, Value.echo_renumber, Store.debug_renumber]
  | error e =>
      obtain ⟨line, halt⟩ := e
      cases halt with
      | outOfFuel => rfl
      | failed cause =>
          have hmessage := cause.message_renumber f palette
          exact congrArg (fun message => Except.error (line, message)) hmessage

/-- The same texts are rejected, for the same reasons. -/
theorem rejects (inj : Function.Injective f) (h : Renumbers f k s s') {source : String}
    {problem : Problem} (hfollows : Follows f k s.drawn (s.drawnBy source))
    (hrejects : s.Rejects source problem) : s'.Rejects source problem := by
  cases hrejects with
  | lexing hlex => exact .lexing hlex
  | @parsing tokens e hlex hparse =>
      rw [drawnBy_of_tokenize hlex] at hfollows
      refine .parsing hlex ?_
      rw [h.drawn, parse_shift tokens hfollows, hparse]
      rfl
  | @resolving tokens p e hlex hparse hresolve =>
      rw [drawnBy_of_tokenize hlex] at hfollows
      have hverdict := resolve_renumber inj p
      rw [hresolve] at hverdict
      refine .resolving hlex (p := p.renumber f) ?_ ?_
      · rw [h.drawn, parse_shift tokens hfollows, hparse]
        rfl
      · generalize resolve (p.renumber f) = verdict at hverdict
        cases hverdict
        rfl

/-- The same texts are accepted, and read as programs that differ in their ids only. -/
theorem accepts (inj : Function.Injective f) (h : Renumbers f k s s') {source : String} {p : Program}
    {a : Annotations} (hfollows : Follows f k s.drawn (s.drawnBy source))
    (haccepts : s.Accepts source p a) :
    ∃ a', s'.Accepts source (p.renumber f) a' ∧ a.Renumbers f a' := by
  obtain ⟨⟨tokens, hlex, hparse⟩, hresolve⟩ := haccepts
  rw [drawnBy_of_tokenize hlex] at hfollows
  have hparse' : (parse tokens s'.drawn).result = .ok (p.renumber f) := by
    rw [h.drawn, parse_shift tokens hfollows, hparse]
    rfl
  have hverdict := resolve_renumber inj p
  rw [hresolve] at hverdict
  cases hresolve' : resolve (p.renumber f) with
  | error e =>
      rw [hresolve'] at hverdict
      cases hverdict
  | ok a' =>
      rw [hresolve'] at hverdict
      cases hverdict with
      | ok ha => exact ⟨a', ⟨⟨tokens, hlex, hparse'⟩, hresolve'⟩, ha⟩

end Renumbers

/-- How many ids a text draws does not depend on how many have been drawn before. -/
theorem drawnBy_add {s s' : Session} {k : Nat} (h : s'.drawn = s.drawn + k) (source : String) :
    s'.drawnBy source = s.drawnBy source + k := by
  -- going around the circle of all ids, every id is followed by the one drawn `k` ids later
  let rotate : NodeId → NodeId := fun id => .nth (id.index + k)
  have hrotate : ∀ first last, Follows rotate k first last := by
    intro first last i _ _
    simp [rotate, NodeId.nth, Nat.add_mod]
  cases hlex : tokenize source with
  | error e => rw [drawnBy_of_tokenize_error hlex, drawnBy_of_tokenize_error hlex, h]
  | ok tokens =>
      rw [drawnBy_of_tokenize hlex, drawnBy_of_tokenize hlex, h, parse_shift tokens (hrotate _ _)]

theorem drawn_after_add {s s' : Session} {k : Nat} (h : s'.drawn = s.drawn + k) (lines : List Line) :
    (s'.after lines).drawn = (s.after lines).drawn + k := by
  induction lines generalizing s s' with
  | nil => exact h
  | cons line rest ih =>
      apply ih
      rw [drawn_submit, drawn_submit, drawnBy_add h]

namespace Renumbers

variable {f : NodeId → NodeId} {k : Nat} {s s' : Session}

/-- One line: both sessions answer alike, and differ in their ids only after it. -/
theorem reply (inj : Function.Injective f) (h : Renumbers f k s s') (line : Line)
    (hfollows : Follows f k s.drawn (s.drawnBy line.source)) :
    (s'.reply line).1 = (s.reply line).1 ∧ Renumbers f k (s.reply line).2 (s'.reply line).2 := by
  have hdrawn := drawnBy_add h.drawn line.source
  unfold Session.reply
  rcases s.accepts_or_rejects line.source with ⟨p, a, haccepts⟩ | ⟨problem, hrejects⟩
  · obtain ⟨a', haccepts', ha⟩ := h.accepts inj hfollows haccepts
    obtain ⟨hlater, hresult⟩ := h.run (p := p) ha line.fuel (s.drawnBy line.source)
    rw [submit_of_accepts haccepts, submit_of_accepts haccepts', hdrawn]
    refine ⟨?_, hlater⟩
    have hshown : ∀ palette, Session.shown ⟨(s'.interpreter.run line.fuel (p.renumber f) a').2,
        s.drawnBy line.source + k⟩ palette
          ((s'.interpreter.run line.fuel (p.renumber f) a').1.mapError .ofHalt) =
        Session.shown ⟨(s.interpreter.run line.fuel p a).2, s.drawnBy line.source⟩ palette
          ((s.interpreter.run line.fuel p a).1.mapError .ofHalt) := by
      intro palette
      rw [hresult]
      exact hlater.shown_eq palette _
    simp only [h.output, hlater.output, hshown, hlater.annotations.size_eq inj]
  · rw [submit_of_rejects hrejects, submit_of_rejects (h.rejects inj hfollows hrejects), hdrawn]
    have hlater : Renumbers f k { s with drawn := s.drawnBy line.source }
        { s' with drawn := s.drawnBy line.source + k } := ⟨rfl, h.world, h.globals, h.annotations⟩
    refine ⟨?_, hlater⟩
    simp only [h.output, hlater.output, h.annotations.size_eq inj]
    rfl

/-- Some lines: both sessions answer alike, and differ in their ids only after them. -/
theorem transcript (inj : Function.Injective f) (h : Renumbers f k s s') (lines : List Line)
    (hfollows : Follows f k s.drawn (s.after lines).drawn) :
    s'.transcript lines = s.transcript lines ∧ Renumbers f k (s.after lines) (s'.after lines) := by
  induction lines generalizing s s' with
  | nil => exact ⟨rfl, h⟩
  | cons line rest ih =>
      have hdrawn := s.drawn_submit line.fuel line.source
      have hle := (s.submit line.fuel line.source).2.le_drawn_after rest
      rw [hdrawn] at hle
      obtain ⟨hreply, hlater⟩ := h.reply inj line (hfollows.mono (Nat.le_refl _) hle)
      have hrest : Follows f k (s.reply line).2.drawn ((s.reply line).2.after rest).drawn := by
        apply hfollows.mono _ (Nat.le_refl _)
        rw [show (s.reply line).2.drawn = s.drawnBy line.source from hdrawn]
        exact s.le_drawnBy line.source
      obtain ⟨htranscript, hafter⟩ := ih hlater hrest
      constructor
      · rw [Session.transcript, Session.transcript, hreply, htranscript]
      · exact hafter

end Renumbers

end Session

/-! ### A gap between the ids -/

/-- Leaves a gap of `k` ids from the id `first` on. -/
def NodeId.gap (first k : Nat) (id : NodeId) : NodeId :=
  if id.index < first then id else ⟨id.index + k⟩

theorem NodeId.gap_injective (first k : Nat) : Function.Injective (NodeId.gap first k) := by
  intro i j h
  obtain ⟨i⟩ := i
  obtain ⟨j⟩ := j
  simp only [gap] at h
  split at h <;> split at h <;> injection h with h <;> congr 1 <;> omega

theorem NodeId.nth_of_lt {i : Nat} (h : i < NodeId.count) : NodeId.nth i = ⟨i⟩ :=
  congrArg NodeId.mk (Nat.mod_eq_of_lt h)

/-- Ids before the gap stay. -/
theorem Follows.before_gap {d k last : Nat} (hlast : last ≤ d) (few : last ≤ NodeId.count) :
    Follows (NodeId.gap d k) 0 0 last := by
  intro i _ hi
  rw [NodeId.nth_of_lt (Nat.lt_of_lt_of_le hi few), Nat.add_zero,
    NodeId.nth_of_lt (Nat.lt_of_lt_of_le hi few)]
  exact if_pos (Nat.lt_of_lt_of_le hi hlast)

/-- Ids behind the gap are moved by its width. -/
theorem Follows.behind_gap {d k last : Nat} (few : last + k ≤ NodeId.count) :
    Follows (NodeId.gap d k) k d last := by
  intro i hfirst hi
  rw [NodeId.nth_of_lt (show i < NodeId.count by omega),
    NodeId.nth_of_lt (show i + k < NodeId.count by omega)]
  exact if_neg (Nat.not_lt.2 hfirst)

namespace Session

/-- Nothing in a new session has an id. -/
theorem renumbers_new (f : NodeId → NodeId) (sink : Sink) : Renumbers f 0 (new sink) (new sink) where
  drawn := rfl
  world := by
    have hempty : Store.empty.renumber f = .empty := by simp [Store.renumber, Store.empty]
    have hbuiltins : Store.empty.newBuiltins.2 = Store.empty.newBuiltins.2.renumber f := by
      have hmade := congrArg Prod.snd (Store.empty.newBuiltins_renumber f)
      rw [hempty] at hmade
      exact hmade
    have hglobals := Store.empty.newBuiltins.2.newScope_renumber f .outside
      (some Store.empty.newBuiltins.1)
    rw [← hbuiltins] at hglobals
    exact congrArg (fun made : ScopeId × Store => World.mk made.2 sink) hglobals
  globals := rfl
  annotations := .empty f

/-- A rejected line leaves no trace: without it all other lines are answered as they are with it. -/
theorem rejected_leaves_no_trace (sink : Sink) (before after : List Line) (bad : Line)
    (rejected : ∃ problem, ((new sink).after before).Rejects bad.source problem)
    (few : ((new sink).after (before ++ bad :: after)).drawn < 2 ^ 32) :
    ((new sink).transcript (before ++ bad :: after)).eraseIdx before.length =
      (new sink).transcript (before ++ after) := by
  obtain ⟨problem, hrejects⟩ := rejected
  change _ < NodeId.count at few
  simp only [after_append, after_cons, submit_of_rejects hrejects] at few
  rw [transcript_append, transcript_append, List.eraseIdx_append_of_length_le (Nat.le_of_eq (length_transcript _ _)),
    length_transcript, Nat.sub_self]
  congr 1
  generalize hs : (new sink).after before = s at hrejects few ⊢
  -- the rejected line has drawn `k` ids
  obtain ⟨k, hk⟩ := Nat.exists_eq_add_of_le (s.le_drawnBy bad.source)
  have hdrawn : (Session.after { s with drawn := s.drawnBy bad.source } after).drawn =
      (s.after after).drawn + k := by
    apply drawn_after_add
    exact hk
  have hle := s.le_drawn_after after
  have hbefore : Renumbers (NodeId.gap s.drawn k) 0 s s := by
    have hfollows : Follows (NodeId.gap s.drawn k) 0 (new sink).drawn ((new sink).after before).drawn := by
      rw [hs]
      apply Follows.before_gap (Nat.le_refl _)
      omega
    have hnew := renumbers_new (NodeId.gap s.drawn k) sink
    exact hs ▸ (hnew.transcript (NodeId.gap_injective _ _) before hfollows).2
  have hskipped : Renumbers (NodeId.gap s.drawn k) k s { s with drawn := s.drawnBy bad.source } :=
    ⟨hk, hbefore.world, hbefore.globals, hbefore.annotations⟩
  have hreply : (s.reply bad).2 = { s with drawn := s.drawnBy bad.source } := by
    rw [reply, submit_of_rejects hrejects]
  rw [transcript, List.eraseIdx_cons_zero, hreply]
  apply (hskipped.transcript (NodeId.gap_injective _ _) after _).1
  apply Follows.behind_gap
  omega

/-- A line that defines a function. -/
def defining : Line := ⟨"f := (n) => \x7b return n \x7d", 9⟩

/-- A line that is rejected once it is read, so that it draws ids. -/
def selfReading : Line := ⟨"\x7b n := n \x7d", 9⟩

/-- A line that calls the function and fails then. -/
def calling : Line := ⟨"f(2) + n", 9⟩

set_option maxRecDepth 2000 in
theorem selfReading_leaves_no_trace :
    (∃ problem, ((new default).after [defining]).Rejects selfReading.source problem) ∧
      ((new default).after [defining, selfReading, calling]).drawn < 2 ^ 32 ∧
      ((new default).transcript [defining, selfReading, calling]).eraseIdx 1 =
        (new default).transcript [defining, calling] := by
  have hdefining : tokenize defining.source = .ok
      [⟨.identifier, "f", 0⟩, ⟨.declare, ":=", 0⟩, ⟨.openParen, "(", 0⟩, ⟨.identifier, "n", 0⟩,
        ⟨.closeParen, ")", 0⟩, ⟨.arrow, "=>", 0⟩, ⟨.openBrace, "\x7b", 0⟩, ⟨.returnWord, "return", 0⟩,
        ⟨.identifier, "n", 0⟩, ⟨.closeBrace, "\x7d", 0⟩, .eof 1] := by
    decide +kernel
  have hselfReading : tokenize selfReading.source = .ok
      [⟨.openBrace, "\x7b", 0⟩, ⟨.identifier, "n", 0⟩, ⟨.declare, ":=", 0⟩, ⟨.identifier, "n", 0⟩,
        ⟨.closeBrace, "\x7d", 0⟩, .eof 1] := by
    decide +kernel
  have hcalling : tokenize calling.source = .ok
      [⟨.identifier, "f", 0⟩, ⟨.openParen, "(", 0⟩, ⟨.number, "2", 0⟩, ⟨.closeParen, ")", 0⟩,
        ⟨.binaryOperator, "+", 0⟩, ⟨.identifier, "n", 0⟩, .eof 1] := by
    decide +kernel
  have hfirst : ((new default).after [defining]).drawn = 2 := by
    rw [after_cons, after, List.foldl_nil, drawn_submit, drawnBy_of_tokenize hdefining]
    rfl
  have hrejects : ∃ problem, ((new default).after [defining]).Rejects selfReading.source problem := by
    generalize (new default).after [defining] = s at hfirst
    refine ⟨_, .resolving hselfReading
      (p := [⟨0, .block [.declare "n" (.var "n" ⟨3⟩)]⟩]) ?_ rfl⟩
    rw [hfirst]
    rfl
  have hfew : ((new default).after [defining, selfReading, calling]).drawn = 6 := by
    rw [show [defining, selfReading, calling] = [defining] ++ [selfReading, calling] from rfl,
      after_append]
    generalize (new default).after [defining] = s at hfirst
    rw [after_cons, after_cons, after, List.foldl_nil, drawn_submit, drawnBy_of_tokenize hcalling,
      drawn_submit, drawnBy_of_tokenize hselfReading, hfirst]
    rfl
  have hfew' : ((new default).after [defining, selfReading, calling]).drawn < 2 ^ 32 := by
    rw [hfew]
    decide
  exact ⟨hrejects, hfew', rejected_leaves_no_trace default [defining] [calling] selfReading hrejects hfew'⟩

end Session

end Kiln
