/-
Module: Kiln.Sink
Purpose: Where printed output goes. A sink keeps the bytes in order. One with a limit takes only that
  many bytes in all; what goes beyond is lost, and the writer is told.
Main exports: Sink, Sink.write
-/

namespace Kiln

/-- Printed output so far, and how many bytes it may have in all. -/
structure Sink where
  limit : Option Nat
  written : ByteArray

namespace Sink

/-- Nothing is written yet. -/
def new (limit : Option Nat) : Sink := ⟨limit, .empty⟩

instance : Inhabited Sink := ⟨new none⟩

/-- How many of `size` more bytes the sink takes. -/
def room (s : Sink) (size : Nat) : Nat :=
  match s.limit with
  | none => size
  | some limit => min size (limit - s.written.size)

/-- Appends the bytes that fit. -/
def write (s : Sink) (bytes : ByteArray) : Sink :=
  { s with written := s.written ++ bytes.extract 0 (s.room bytes.size) }

/-- Whether all of `size` more bytes fit. -/
def takes (s : Sink) (size : Nat) : Bool := s.room size == size

end Sink

end Kiln
