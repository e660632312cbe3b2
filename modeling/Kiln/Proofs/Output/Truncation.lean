/-
Module: Kiln.Proofs.Output.Truncation
Purpose: A run that prints into a sink with limited room, beside the run of the same program that may print
  as much as it likes. Both do the same up to the byte that finds no room. There the limited run stops, so
  that what it has printed is cut off and nothing else is different.
Main exports: Sink.withRoom, Prints, Truncated, Eval.Truncates, Evaluate.Task.run_truncates,
  Evaluate.program_truncates, Interpreter.full_sink_truncates
-/
import Kiln.Proofs.Session.Pieces

namespace Kiln

open Eval

/-! ### Room for more output -/

/-- The same output, with room for `n` more bytes. -/
def Sink.withRoom (s : Sink) (n : Nat) : Sink := ⟨some (s.written.size + n), s.written⟩

/-- The same memory and output, with room for `n` more bytes. -/
def World.withRoom (w : World) (n : Nat) : World := { w with sink := w.sink.withRoom n }

/-- The same interpreter, with room for `n` more bytes of output. -/
def Interpreter.withRoom (i : Interpreter) (n : Nat) : Interpreter :=
  { i with world := i.world.withRoom n }

/-- The failure of a print into a full sink. -/
def Halt.sinkFull : Halt := .failed (.builtin (.output "print" "sink full"))

/-- Between the first world and the second, these bytes are printed. Output is unlimited. -/
def Prints (w : World) (bytes : ByteArray) (u : World) : Prop :=
  u.sink = ⟨none, w.sink.written ++ bytes⟩

namespace Prints

variable {w u v : World} {bytes more : ByteArray}

theorem unlimited (h : Prints w bytes u) : u.sink.limit = none := congrArg Sink.limit h

theorem written (h : Prints w bytes u) : u.sink.written = w.sink.written ++ bytes :=
  congrArg Sink.written h

theorem nothing (h : w.sink = u.sink) (unlimited : w.sink.limit = none) : Prints w .empty u := by
  rw [Prints, ByteArray.append_empty, ← unlimited, ← h]

theorem trans (h : Prints w bytes u) (next : Prints u more v) : Prints w (bytes ++ more) v := by
  rw [Prints, next, h.written, ByteArray.append_assoc]

end Prints

section Outcomes

variable {ε α : Type}

/-- The same outcome, with room for `n` more bytes of output. -/
def Eval.endWithRoom (n : Nat) : EStateM.Result ε World α → EStateM.Result ε World α
  | .ok a w => .ok a (w.withRoom n)
  | .error e w => .error e (w.withRoom n)

theorem Eval.endWorld_endWithRoom (n : Nat) (r : EStateM.Result ε World α) :
    endWorld (endWithRoom n r) = (endWorld r).withRoom n := by
  cases r <;> rfl

theorem Eval.endValue_endWithRoom (n : Nat) (r : EStateM.Result ε World α) :
    endValue (endWithRoom n r) = endValue r := by
  cases r <;> rfl

end Outcomes

/-! ### The first bytes of two pieces -/

theorem ByteArray.extract_zero_of_size_le {bytes : ByteArray} {n : Nat} (h : bytes.size ≤ n) :
    bytes.extract 0 n = bytes := by
  rw [← Nat.max_eq_left h, ByteArray.extract_zero_max_size]

/-- If the first piece is long enough, then the first bytes are all from it. -/
theorem ByteArray.extract_zero_append_of_le {first second : ByteArray} {n : Nat}
    (h : n ≤ first.size) : (first ++ second).extract 0 n = first.extract 0 n := by
  have hsecond : second.extract (0 - first.size) (n - first.size) = .empty :=
    ByteArray.extract_eq_empty_iff.2 (by omega)
  rw [ByteArray.extract_append, hsecond, ByteArray.append_empty]

/-- If the first piece is shorter, then the second one gives the rest. -/
theorem ByteArray.extract_zero_append_of_ge {first second : ByteArray} {n : Nat}
    (h : first.size ≤ n) :
    (first ++ second).extract 0 n = first ++ second.extract 0 (n - first.size) := by
  rw [ByteArray.extract_append, Nat.zero_sub, extract_zero_of_size_le h]

/-! ### Sinks with room -/

namespace Sink

theorem takes_none (written : ByteArray) (size : Nat) :
    (⟨none, written⟩ : Sink).takes size = true := by
  simp [takes, room]

theorem write_none (written bytes : ByteArray) :
    (⟨none, written⟩ : Sink).write bytes = ⟨none, written ++ bytes⟩ := by
  simp only [write, room, ByteArray.extract_zero_size]

/-- As many bytes find room as there is room for. -/
theorem takes_withRoom (s : Sink) (n size : Nat) : (s.withRoom n).takes size = true ↔ size ≤ n := by
  simp only [takes, room, withRoom, Nat.add_sub_cancel_left, beq_iff_eq]
  omega

theorem written_write_withRoom (s : Sink) (n : Nat) (bytes : ByteArray) :
    ((s.withRoom n).write bytes).written = s.written ++ bytes.extract 0 n := by
  simp only [write, withRoom, room, Nat.add_sub_cancel_left]
  rcases Nat.le_total bytes.size n with h | h
  · rw [Nat.min_eq_left h, ByteArray.extract_zero_size, ByteArray.extract_zero_of_size_le h]
  · rw [Nat.min_eq_right h]

/-- After bytes that find room there is less of it. -/
theorem write_withRoom_of_le {s : Sink} {n : Nat} {bytes : ByteArray} (h : bytes.size ≤ n) :
    (s.withRoom n).write bytes
      = (⟨none, s.written ++ bytes⟩ : Sink).withRoom (n - bytes.size) := by
  have hwritten : ((s.withRoom n).write bytes).written = s.written ++ bytes := by
    rw [written_write_withRoom, ByteArray.extract_zero_of_size_le h]
  have hlimit : s.written.size + n = (s.written ++ bytes).size + (n - bytes.size) := by
    rw [ByteArray.size_append]
    omega
  rw [withRoom.eq_1 ⟨none, _⟩, ← hlimit, ← hwritten]
  rfl

end Sink

/-- Output goes to the sink, and the step fails if that does not take all of it. -/
theorem Eval.emit_eq (function text : String) (w : World) :
    emit function text w = if w.sink.takes text.toUTF8.size = true
      then .ok () { w with sink := w.sink.write text.toUTF8 }
      else .error (.failed (.builtin (.output function "sink full")))
        { w with sink := w.sink.write text.toUTF8 } := rfl

/-! ### Outcomes with limited room -/

section

variable {α : Type} {w u : World} {n : Nat} {r r' : EStateM.Result Halt World α}

/-- The outcomes of a step that is begun in the world `w`, with unlimited room and with room for `n` bytes.
    Either all that the first run prints finds room, and the second run is the same; or the second run
    fails with the first `n` of these bytes. -/
inductive Truncated (w : World) (n : Nat) (r : EStateM.Result Halt World α) :
    EStateM.Result Halt World α → Prop where
  | fits {bytes : ByteArray} (printed : Prints w bytes (endWorld r)) (room : bytes.size ≤ n) :
      Truncated w n r (endWithRoom (n - bytes.size) r)
  | cut {bytes : ByteArray} {u : World} (printed : Prints w bytes (endWorld r)) (due : n < bytes.size)
      (kept : u.sink.written = w.sink.written ++ bytes.extract 0 n) :
      Truncated w n r (.error .sinkFull u)

namespace Truncated

/-- The run with unlimited room only adds to the output. -/
theorem prints (h : Truncated w n r r') : ∃ bytes, Prints w bytes (endWorld r) := by
  cases h with
  | fits printed _ => exact ⟨_, printed⟩
  | cut printed _ _ => exact ⟨_, printed⟩

/-- A step that finds room for its output, and then one that is limited to the room left. -/
theorem after {bytes : ByteArray} (printed : Prints w bytes u) (room : bytes.size ≤ n)
    (h : Truncated u (n - bytes.size) r r') : Truncated w n r r' := by
  cases h with
  | @fits more printed' room' =>
      have hsize : n - bytes.size - more.size = n - (bytes ++ more).size := by
        rw [ByteArray.size_append]
        omega
      rw [hsize]
      refine .fits (printed.trans printed') ?_
      rw [ByteArray.size_append]
      omega
  | @cut more u' printed' due kept =>
      refine .cut (printed.trans printed') ?_ ?_
      · rw [ByteArray.size_append]
        omega
      · rw [kept, printed.written, ByteArray.extract_zero_append_of_ge room, ByteArray.append_assoc]

/-- A step that finds no room ends the limited run, whatever the other run does next. -/
theorem cut_before {bytes more : ByteArray} {u' : World} (printed : Prints w bytes u)
    (due : n < bytes.size) (kept : u'.sink.written = w.sink.written ++ bytes.extract 0 n)
    (next : Prints u more (endWorld r)) :
    Truncated w n r (.error .sinkFull u') := by
  refine .cut (printed.trans next) ?_ ?_
  · rw [ByteArray.size_append]
    omega
  · rw [kept, ByteArray.extract_zero_append_of_le (Nat.le_of_lt due)]

end Truncated

end

namespace Eval

/-- Limited room does nothing to a step but cut off its output. -/
def Truncates {α : Type} (p : Eval α) : Prop :=
  ∀ w n, w.sink.limit = none → Truncated w n (p w) (p (w.withRoom n))

/-- A step that works on the memory alone, and does not look at the output. -/
def Silent {α : Type} (p : Eval α) : Prop :=
  ∀ store, (∃ a s, ∀ sink, p ⟨store, sink⟩ = .ok a ⟨s, sink⟩) ∨
    ∃ e s, ∀ sink, p ⟨store, sink⟩ = .error e ⟨s, sink⟩

section Steps

variable {α β : Type}

namespace Silent

theorem pure (a : α) : Silent (pure a : Eval α) := fun store => .inl ⟨a, store, fun _ => rfl⟩

theorem throw (e : Halt) : Silent (throw e : Eval α) := fun store => .inr ⟨e, store, fun _ => rfl⟩

theorem fail (cause : RuntimeError) : Silent (fail cause : Eval α) := throw _

theorem bind {p : Eval α} {f : α → Eval β} (hp : Silent p) (hf : ∀ a, Silent (f a)) :
    Silent (p >>= f) := by
  intro store
  rcases hp store with ⟨a, s, hok⟩ | ⟨e, s, herror⟩
  · rcases hf a s with ⟨b, t, hok'⟩ | ⟨e, t, herror⟩
    · exact .inl ⟨b, t, fun sink => by rw [Eval.bind_of_ok (hok sink), hok']⟩
    · exact .inr ⟨e, t, fun sink => by rw [Eval.bind_of_ok (hok sink), herror]⟩
  · exact .inr ⟨e, s, fun sink => Eval.bind_of_error (herror sink) f⟩

theorem ofExcept (result : Except RuntimeError α) : Silent (ofExcept result) := by
  cases result with
  | ok a => exact pure a
  | error cause => exact fail cause

theorem read (find : Finder) (scope : ScopeId) (name : String) (id : NodeId) :
    Silent (read find scope name id) := by
  intro store
  simp only [Eval.read]
  cases (find store scope name id).bind fun target => store.cell? target name with
  | some value => exact .inl ⟨value, store, fun _ => rfl⟩
  | none => exact .inr ⟨_, store, fun _ => rfl⟩

theorem write (find : Finder) (scope : ScopeId) (target : Variable) (value : Value) :
    Silent (write find scope target value) := by
  intro store
  simp only [Eval.write]
  cases find store scope target.name target.id with
  | some owner => exact .inl ⟨(), _, fun _ => rfl⟩
  | none => exact .inr ⟨_, store, fun _ => rfl⟩

theorem define (scope : ScopeId) (name : String) (value : Value) : Silent (define scope name value) :=
  fun store => .inl ⟨(), store.put scope name value, fun _ => rfl⟩

theorem defineAll (scope : ScopeId) (cells : List (String × Value)) :
    Silent (defineAll scope cells) := by
  induction cells with
  | nil => exact pure ()
  | cons cell rest ih => exact bind (define scope cell.1 cell.2) fun _ => ih

theorem newScope (origin : Origin) (parent : ScopeId) : Silent (newScope origin parent) :=
  fun store => .inl ⟨(store.newScope origin (some parent)).1, (store.newScope origin (some parent)).2,
    fun _ => rfl⟩

theorem newObject : Silent newObject :=
  fun store => .inl ⟨store.newObject.1, store.newObject.2, fun _ => rfl⟩

theorem setField (object : ObjectId) (name : String) (value : Value) :
    Silent (setField object name value) :=
  fun store => .inl ⟨(), store.setField object name value, fun _ => rfl⟩

theorem newIdentity : Silent newIdentity :=
  fun store => .inl ⟨store.newIdentity.1, store.newIdentity.2, fun _ => rfl⟩

theorem newClosure (function : Function) (scope : ScopeId) : Silent (newClosure function scope) :=
  bind newIdentity fun _ => pure _

theorem bindMethod (c : Class) (method : Function) (receiver : Value) :
    Silent (Eval.bind c method receiver) :=
  bind (newScope _ _) fun _ => bind (define _ _ _) fun _ => newClosure _ _

theorem property (object : Value) (name : String) : Silent (property object name) := by
  cases object with
  | object c id =>
      intro store
      simp only [Eval.property, Eval.get_bind]
      cases (store.fields id)[name]? with
      | some value => exact pure value store
      | none =>
          cases c.methods[name]? with
          | some method => exact bind (bindMethod c method (.object c id)) (fun _ => pure _) store
          | none => exact fail _ store
  | _ => exact fail _

/-- A step that does not look at the output is the same with limited room. -/
theorem truncates {p : Eval α} (h : Silent p) : Truncates p := by
  intro w n unlimited
  obtain ⟨store, limit, written⟩ := w
  have hlimit : limit = none := unlimited
  subst hlimit
  have hnothing : ∀ s, Prints ⟨store, ⟨none, written⟩⟩ .empty ⟨s, ⟨none, written⟩⟩ :=
    fun _ => .nothing rfl rfl
  have hroom : (ByteArray.empty).size ≤ n := Nat.zero_le n
  rcases h store with ⟨a, s, hok⟩ | ⟨e, s, herror⟩
  · rw [hok, World.withRoom, hok]
    exact .fits (hnothing s) hroom
  · rw [herror, World.withRoom, herror]
    exact .fits (hnothing s) hroom

end Silent

namespace Truncates

theorem pure (a : α) : Truncates (pure a : Eval α) := (Silent.pure a).truncates

theorem throw (e : Halt) : Truncates (throw e : Eval α) := (Silent.throw e).truncates

theorem fail (cause : RuntimeError) : Truncates (fail cause : Eval α) := throw _

theorem bind {p : Eval α} {f : α → Eval β} (hp : Truncates p) (hf : ∀ a, Truncates (f a)) :
    Truncates (p >>= f) := by
  intro w n unlimited
  have h := hp w n unlimited
  generalize hlimited : p (w.withRoom n) = r' at h
  cases hfree : p w with
  | error e u =>
      rw [hfree] at h
      rw [Eval.bind_of_error hfree]
      cases h with
      | fits printed room =>
          rw [Eval.bind_of_error hlimited]
          exact .fits printed room
      | cut printed due kept =>
          rw [Eval.bind_of_error hlimited]
          exact .cut printed due kept
  | ok a u =>
      rw [hfree] at h
      rw [Eval.bind_of_ok hfree]
      cases h with
      | fits printed room =>
          rw [Eval.bind_of_ok hlimited]
          exact .after printed room (hf a u _ printed.unlimited)
      | cut printed due kept =>
          -- the run with unlimited room goes on, and prints at most more
          obtain ⟨more, next⟩ := (hf a u 0 printed.unlimited).prints
          rw [Eval.bind_of_error hlimited]
          exact .cut_before printed due kept next

/-- Printing takes what finds room and fails if that is not all. -/
theorem emit (text : String) : Truncates (emit "print" text) := by
  intro w n unlimited
  obtain ⟨store, limit, written⟩ := w
  have hlimit : limit = none := unlimited
  subst hlimit
  rw [Eval.emit_eq, Eval.emit_eq]
  generalize text.toUTF8 = bytes
  have hprinted : Prints ⟨store, ⟨none, written⟩⟩ bytes ⟨store, ⟨none, written ++ bytes⟩⟩ := rfl
  rw [if_pos (Sink.takes_none written _), Sink.write_none]
  simp only [World.withRoom, Sink.takes_withRoom]
  split
  · next hroom =>
    rw [Sink.write_withRoom_of_le hroom]
    exact .fits hprinted hroom
  · next hroom =>
    exact .cut hprinted (Nat.lt_of_not_le hroom) (Sink.written_write_withRoom _ _ _)

theorem callBuiltin (f : Builtin) (args : List Value) : Truncates (callBuiltin f args) := by
  cases f with
  | print => exact bind (emit _) fun _ => pure _

end Truncates

end Steps

end Eval

namespace Evaluate

namespace Task

variable {find : Finder} {n : Nat}

/-- What is to be shown of each bound. -/
def RunsTruncate (find : Finder) (n : Nat) : Prop := ∀ t : Task, Truncates (t.run find n)

theorem expr_truncates (ih : RunsTruncate find n) (e : Expr) (scope : ScopeId) :
    Truncates (Evaluate.expr find (n + 1) e scope) := by
  cases e with
  | number value => exact .pure _
  | text value => exact .pure _
  | bool value => exact .pure _
  | var name id => exact (Silent.read find scope name id).truncates
  | this id => exact (Silent.read find scope "this" id).truncates
  | binary op left right =>
      apply Truncates.bind (ih (.expr left scope))
      intro a
      apply Truncates.bind (ih (.expr right scope))
      intro b
      exact (Silent.ofExcept _).truncates
  | logical op left right =>
      apply Truncates.bind (ih (.operand op left scope))
      intro a
      cases isDecided op a with
      | true => exact .pure _
      | false => exact .bind (ih (.operand op right scope)) fun _ => .pure _
  | unary op e => exact .bind (ih (.expr e scope)) fun _ => (Silent.ofExcept _).truncates
  | member object name => exact .bind (ih (.expr object scope)) fun _ => (Silent.property _ _).truncates
  | call callee args =>
      apply Truncates.bind (ih (.expr callee scope))
      intro f
      exact .bind (ih (.exprs args scope)) fun values => ih (.call f values)
  | lambda f => exact .bind (Silent.newClosure f scope).truncates fun _ => .pure _

theorem operand_truncates (ih : RunsTruncate find n) (op : LogicalOp) (e : Expr) (scope : ScopeId) :
    Truncates (Evaluate.operand find (n + 1) op e scope) := by
  apply Truncates.bind (ih (.expr e scope))
  intro value
  cases value with
  | bool b => exact .pure _
  | _ => exact .fail _

theorem condition_truncates (ih : RunsTruncate find n) (e : Expr) (scope : ScopeId) :
    Truncates (Evaluate.condition find (n + 1) e scope) := by
  apply Truncates.bind (ih (.expr e scope))
  intro value
  cases value with
  | bool b => exact .pure _
  | _ => exact .fail _

theorem call_truncates (ih : RunsTruncate find n) (callee : Value) (args : List Value) :
    Truncates (Evaluate.call find (n + 1) callee args) := by
  cases callee with
  | closure c => exact ih (.callClosure c args)
  | builtin f identity => exact .callBuiltin f args
  | classValue c =>
      apply Truncates.bind Silent.newObject.truncates
      intro object
      cases c.methods["init"]? with
      | some method =>
          apply Truncates.bind (Silent.bindMethod c method (.object c object)).truncates
          intro bound
          exact .bind (ih (.callClosure bound args)) fun _ => .pure _
      | none =>
          cases args with
          | nil => exact .pure _
          | cons _ _ => exact .fail _
  | _ => exact .fail _

theorem callClosure_truncates (ih : RunsTruncate find n) (c : Closure) (args : List Value) :
    Truncates (Evaluate.callClosure find (n + 1) c args) := by
  simp only [Evaluate.callClosure]
  split
  · exact .fail _
  · apply Truncates.bind (Silent.newScope _ _).truncates
    intro scope
    apply Truncates.bind (Silent.defineAll scope _).truncates
    intro _
    apply Truncates.bind (ih (.stmts c.function.body scope))
    intro completion
    cases completion with
    | returned value => exact .pure _
    | normal value => exact .pure _

theorem stmt_truncates (ih : RunsTruncate find n) (s : Stmt) (scope : ScopeId) :
    Truncates (Evaluate.stmt find (n + 1) s scope) := by
  cases s with
  | expr e => exact .bind (ih (.expr e scope)) fun _ => .pure _
  | declare name e =>
      apply Truncates.bind (ih (.expr e scope))
      intro value
      exact .bind (Silent.define _ _ _).truncates fun _ => .pure _
  | assign target e =>
      apply Truncates.bind (ih (.expr e scope))
      intro value
      exact .bind (Silent.write _ _ _ _).truncates fun _ => .pure _
  | update target op =>
      apply Truncates.bind (Silent.read _ _ _ _).truncates
      intro old
      apply Truncates.bind (Silent.ofExcept _).truncates
      intro new
      exact .bind (Silent.write _ _ _ _).truncates fun _ => .pure _
  | setMember object name e =>
      apply Truncates.bind (ih (.expr object scope))
      intro value
      cases value with
      | object c id =>
          apply Truncates.bind (ih (.expr e scope))
          intro value
          exact .bind (Silent.setField _ _ _).truncates fun _ => .pure _
      | _ => exact .fail _
  | block body =>
      apply Truncates.bind (Silent.newScope _ _).truncates
      intro inner
      exact ih (.stmts body inner)
  | ifElse test thenBranch elseBranch =>
      apply Truncates.bind (ih (.condition test scope))
      intro b
      cases b with
      | true => exact ih (.stmt thenBranch scope)
      | false =>
          cases elseBranch with
          | some branch => exact ih (.stmt branch scope)
          | none => exact .pure _
  | whileLoop test body => exact ih (.loop test body scope)
  | function f =>
      apply Truncates.bind (Silent.newClosure f scope).truncates
      intro c
      exact .bind (Silent.define _ _ _).truncates fun _ => .pure _
  | ret value =>
      cases value with
      | none => exact .pure _
      | some e => exact .bind (ih (.expr e scope)) fun _ => .pure _
  | classDecl name methods =>
      apply Truncates.bind (Silent.define _ _ _).truncates
      intro _
      apply Truncates.bind Silent.newIdentity.truncates
      intro identity
      exact .bind (Silent.define _ _ _).truncates fun _ => .pure _

theorem loop_truncates (ih : RunsTruncate find n) (test : Expr) (body : Stmt) (scope : ScopeId) :
    Truncates (Evaluate.loop find (n + 1) test body scope) := by
  apply Truncates.bind (ih (.condition test scope))
  intro b
  cases b with
  | false => exact .pure _
  | true =>
      apply Truncates.bind (ih (.stmt body scope))
      intro completion
      cases completion with
      | returned value => exact .pure _
      | normal value => exact ih (.loop test body scope)

/-- Limited room does nothing to a run but cut off its output, however deep inside it prints. -/
theorem run_truncates (find : Finder) (n : Nat) : RunsTruncate find n := by
  induction n with
  | zero =>
      intro t
      cases t with
      | call callee args => cases callee <;> exact .throw _
      | _ => exact .throw _
  | succ n ih =>
      intro t
      cases t with
      | expr e scope => exact expr_truncates ih e scope
      | exprs es scope =>
          cases es with
          | nil => exact .pure _
          | cons e rest =>
              apply Truncates.bind (ih (.expr e scope))
              intro value
              exact .bind (ih (.exprs rest scope)) fun _ => .pure _
      | operand op e scope => exact operand_truncates ih op e scope
      | condition e scope => exact condition_truncates ih e scope
      | call callee args => exact call_truncates ih callee args
      | callClosure c args => exact callClosure_truncates ih c args
      | stmt s scope => exact stmt_truncates ih s scope
      | stmts ss scope =>
          cases ss with
          | nil => exact .pure _
          | cons s rest =>
              apply Truncates.bind (ih (.stmt s scope))
              intro completion
              cases completion with
              | returned value => exact .pure _
              | normal value => exact ih (.stmts rest scope)
      | loop test body scope => exact loop_truncates ih test body scope

end Task

section Programs

variable (find : Finder) (fuel : Nat) (scope : ScopeId)

/-- The statement of a program during which its output runs out of room, and how the program then ends. -/
def RunsOut (p : Program) (w : World) (n : Nat) (bytes : ByteArray) : Prop :=
  ∃ before node after values u v, p = before ++ node :: after ∧
    program find fuel scope before w = .ok values u ∧
    u.sink.written.size ≤ w.sink.written.size + n ∧
    w.sink.written.size + n < (endWorld (stmt find fuel node.value scope u)).sink.written.size ∧
    program find fuel scope p (w.withRoom n) = .error ⟨node.line, .sinkFull⟩ v ∧
    v.sink.written = w.sink.written ++ bytes.extract 0 n

variable {find fuel scope}

/-- Output runs out of room during the first statement. -/
theorem RunsOut.head {node : Located Stmt} {rest : Program} {w v : World} {n : Nat}
    {bytes more : ByteArray} (printed : Prints w bytes (endWorld (stmt find fuel node.value scope w)))
    (due : n < bytes.size)
    (stopped : stmt find fuel node.value scope (w.withRoom n) = .error .sinkFull v)
    (kept : v.sink.written = w.sink.written ++ bytes.extract 0 n) :
    RunsOut find fuel scope (node :: rest) w n (bytes ++ more) := by
  refine ⟨[], node, rest, [], w, v, rfl, rfl, Nat.le_add_right _ _, ?_, ?_, ?_⟩
  · rw [printed, ByteArray.size_append]
    omega
  · rw [program_cons, stopped]
  · rw [kept, ByteArray.extract_zero_append_of_le (Nat.le_of_lt due)]

/-- Output runs out of room after the first statement. -/
theorem RunsOut.tail {node : Located Stmt} {rest : Program} {w u : World} {n : Nat} {c : Completion}
    {bytes more : ByteArray} (done : stmt find fuel node.value scope w = .ok c u)
    (printed : Prints w bytes u) (room : bytes.size ≤ n)
    (limited : stmt find fuel node.value scope (w.withRoom n) = .ok c (u.withRoom (n - bytes.size)))
    (h : RunsOut find fuel scope rest u (n - bytes.size) more) :
    RunsOut find fuel scope (node :: rest) w n (bytes ++ more) := by
  obtain ⟨before, late, after, values, u', v, rfl, hbefore, hroom, hdue, hstopped, hkept⟩ := h
  have hsize : u.sink.written.size + (n - bytes.size) = w.sink.written.size + n := by
    rw [printed.written, ByteArray.size_append]
    omega
  rw [hsize] at hroom hdue
  refine ⟨node :: before, late, after, c.value :: values, u', v, rfl, ?_, hroom, hdue, ?_, ?_⟩
  · rw [program_cons, done]
    simp only [hbefore]
  · rw [program_cons, limited]
    simp only [hstopped]
  · rw [hkept, printed.written, ByteArray.extract_zero_append_of_ge room, ByteArray.append_assoc]

/-- A program ends in the world in which its last statement does. -/
theorem endWorld_program_append_singleton {before : Program} {node : Located Stmt} {w u : World}
    {values : List Value} (h : program find fuel scope before w = .ok values u) :
    endWorld (program find fuel scope (before ++ [node]) w)
      = endWorld (stmt find fuel node.value scope u) := by
  rw [program_append, h]
  simp only [program_cons]
  cases stmt find fuel node.value scope u <;> rfl

/-- Limited room does nothing to a program but cut off its output and end it there. -/
theorem program_truncates (p : Program) (w : World) (n : Nat) (unlimited : w.sink.limit = none) :
    ∃ bytes, Prints w bytes (endWorld (program find fuel scope p w)) ∧
      (bytes.size ≤ n → program find fuel scope p (w.withRoom n)
        = endWithRoom (n - bytes.size) (program find fuel scope p w)) ∧
      (n < bytes.size → RunsOut find fuel scope p w n bytes) := by
  induction p generalizing w n with
  | nil =>
      refine ⟨.empty, .nothing rfl unlimited, fun _ => rfl, fun hdue => ?_⟩
      exact absurd hdue (Nat.not_lt_zero n)
  | cons node rest ih =>
      have h := Task.run_truncates find fuel (.stmt node.value scope) w n unlimited
      simp only [Task.run] at h
      generalize hlimited : stmt find fuel node.value scope (w.withRoom n) = r' at h
      cases hfree : stmt find fuel node.value scope w with
      | error e u =>
          rw [hfree] at h
          have hprogram : program find fuel scope (node :: rest) w = .error ⟨node.line, e⟩ u := by
            rw [program_cons, hfree]
          rw [hprogram]
          cases h with
          | @fits bytes printed room =>
              refine ⟨bytes, printed, fun _ => ?_, fun hdue => absurd room (Nat.not_le_of_lt hdue)⟩
              rw [program_cons, hlimited]
              rfl
          | @cut bytes v printed due kept =>
              refine ⟨bytes, printed, fun room => absurd room (Nat.not_le_of_lt due), fun _ => ?_⟩
              rw [← ByteArray.append_empty (b := bytes)]
              exact .head (hfree ▸ printed) due hlimited kept
      | ok c u =>
          rw [hfree] at h
          have hend : endWorld (program find fuel scope (node :: rest) w)
              = endWorld (program find fuel scope rest u) := by
            rw [program_cons, hfree]
            simp only
            cases program find fuel scope rest u <;> rfl
          rw [hend]
          cases h with
          | @fits bytes printed room =>
              obtain ⟨more, next, hfits, hout⟩ := ih u (n - bytes.size) printed.unlimited
              refine ⟨bytes ++ more, printed.trans next, fun hroom => ?_, fun hdue => ?_⟩
              · rw [ByteArray.size_append] at hroom ⊢
                rw [program_cons, program_cons, hlimited, hfree]
                simp only [endWithRoom, hfits (by omega), Nat.sub_sub]
                cases program find fuel scope rest u <;> rfl
              · rw [ByteArray.size_append] at hdue
                exact .tail hfree printed room hlimited (hout (by omega))
          | @cut bytes v printed due kept =>
              obtain ⟨more, next, _⟩ := ih u 0 printed.unlimited
              refine ⟨bytes ++ more, printed.trans next, fun hroom => ?_, fun _ => ?_⟩
              · rw [ByteArray.size_append] at hroom
                omega
              · exact .head (hfree ▸ printed) due hlimited kept

end Programs

end Evaluate

open Evaluate

namespace Interpreter

/-- The first statements of a program end if the whole program does. -/
theorem Ends.append_left {i j : Interpreter} {first second : Program} {a : Annotations}
    {r : Except (Located Halt) (List Value)} {fuel : Nat}
    (hrun : i.run fuel (first ++ second) a = (r, j)) (hend : ∀ line, r ≠ .error ⟨line, .outOfFuel⟩) :
    i.Ends first a (i.run fuel first a).1 (i.run fuel first a).2 := by
  refine ⟨fuel, rfl, fun line hfuel => hend line ?_⟩
  obtain ⟨w, hw⟩ := exists_world_of_run_eq_error hfuel
  have hwhole : program (i.learn a).finder fuel i.globals (first ++ second) i.world
      = .error ⟨line, .outOfFuel⟩ w := by
    rw [program_append, hw]
  rw [run_of_program_error hwhole] at hrun
  exact (congrArg Prod.fst hrun).symm

/-- Printing into a full sink cuts off a run and does nothing else. Let a run end with unlimited output,
    having printed some bytes. With room for `n` bytes it prints the first `n` of these. If that is all of
    them, then it ends in the same way and leaves the same interpreter behind. Otherwise it fails, on the line of
    the statement during which the next byte was due. -/
theorem full_sink_truncates {i j : Interpreter} {p : Program} {a : Annotations}
    {r : Except (Located Halt) (List Value)} (unlimited : i.world.sink.limit = none)
    (ends : i.Ends p a r j) (n : Nat) :
    ∃ bytes, j.world.sink.written = i.world.sink.written ++ bytes ∧
      (bytes.size ≤ n → (i.withRoom n).Ends p a r (j.withRoom (n - bytes.size))) ∧
      (n < bytes.size → ∃ before node after values k r' l m, p = before ++ node :: after ∧
        i.Ends before a (.ok values) k ∧
        k.world.sink.written.size ≤ i.world.sink.written.size + n ∧
        i.Ends (before ++ [node]) a r' l ∧
        i.world.sink.written.size + n < l.world.sink.written.size ∧
        (i.withRoom n).Ends p a (.error ⟨node.line, .sinkFull⟩) m ∧
        m.world.sink.written = i.world.sink.written ++ bytes.extract 0 n) := by
  obtain ⟨fuel, hrun, hend⟩ := ends
  obtain ⟨bytes, hprints, hfits, hout⟩ : ∃ bytes,
      Prints i.world bytes (endWorld (program (i.learn a).finder fuel i.globals p i.world)) ∧ _ :=
    program_truncates p i.world n unlimited
  have hj : j.world = endWorld (program (i.learn a).finder fuel i.globals p i.world) := by
    rw [run_eq_end] at hrun
    cases hrun
    rfl
  refine ⟨bytes, by rw [hj, hprints.written], fun hroom => ⟨fuel, ?_, hend⟩, fun hdue => ?_⟩
  · rw [run_eq_end] at hrun ⊢
    have hsame : program ((i.withRoom n).learn a).finder fuel (i.withRoom n).globals p
        (i.withRoom n).world = _ := hfits hroom
    rw [hsame, endValue_endWithRoom, endWorld_endWithRoom]
    cases hrun
    rfl
  · obtain ⟨before, node, after, values, u, v, rfl, hbefore, hroom, hnode, hstopped, hkept⟩ := hout hdue
    have hrun' : i.run fuel ((before ++ [node]) ++ after) a = (r, j) := by
      rw [List.append_assoc]
      exact hrun
    refine ⟨before, node, after, values, { i.learn a with world := u }, _, _,
      { i.learn a with world := v }, rfl, ?_, hroom, .append_left hrun' hend, ?_, ?_, hkept⟩
    · exact ⟨fuel, run_of_program_ok hbefore, by simp⟩
    · rw [run_eq_end, endWorld_program_append_singleton hbefore]
      exact hnode
    · refine ⟨fuel, run_of_program_error hstopped, by simp [Halt.sinkFull]⟩

/-- A block that gives `print` another name, and prints twice when it makes an instance. -/
def aliasProgram : Program :=
  [⟨7, .block [.declare "p" (.var "print" ⟨0⟩),
    .classDecl "A" [⟨some "init", [], none,
      [.expr (.call (.var "p" ⟨1⟩) [.text "ab"]), .expr (.call (.var "p" ⟨2⟩) [.text "cd"])]⟩],
    .expr (.call (.var "A" ⟨3⟩) [])]⟩]

/-- The distances of its references, of which `print` is built in. -/
def aliasDistances : Annotations :=
  ((Annotations.empty.record ⟨1⟩ 2).record ⟨2⟩ 2).record ⟨3⟩ 0

/-- Four bytes are the first line and one letter of the second. -/
theorem full_sink_truncates_of_alias : ∃ m,
    ((new default).withRoom 4).Ends aliasProgram aliasDistances (.error ⟨7, .sinkFull⟩) m ∧
      m.world.sink.written = "ab\nc".toUTF8 := by
  have hok : ((new default).run 20 aliasProgram aliasDistances).1.isOk = true := by decide +kernel
  have hwritten : ((new default).run 20 aliasProgram aliasDistances).2.world.sink.written
      = "ab\ncd\n".toUTF8 := by
    decide +kernel
  obtain ⟨bytes, hbytes, _, hout⟩ := full_sink_truncates (i := new default) rfl (ends_of_isOk hok) 4
  rw [hwritten] at hbytes
  have hempty : (new default).world.sink.written = .empty := rfl
  rw [hempty, ByteArray.empty_append] at hbytes
  subst hbytes
  obtain ⟨before, node, after, _, _, _, _, m, hsplit, _, _, _, _, hends, hm⟩ := hout (by decide)
  -- there is only one statement in which the output can run out of room
  have hnode : node.line = 7 := by
    cases before with
    | nil =>
        cases hsplit
        rfl
    | cons _ _ => simp [aliasProgram] at hsplit
  rw [hnode] at hends
  refine ⟨m, hends, ?_⟩
  rw [hm]
  decide

end Interpreter

end Kiln
