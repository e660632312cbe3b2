/-
Module: Kiln.Located
Purpose: Things that belong to a line of a source text, above all the causes of failures. Lines are
  counted from 0 inside and shown from 1.
Main exports: Located, shownLine, report
-/
import Kiln.Text.Style

namespace Kiln

open Kiln.Text

/-- A value together with the line of the source that it belongs to, counted from 0. -/
structure Located (α : Type) where
  line : Nat
  value : α
deriving DecidableEq, Repr, Inhabited

/-- The number under which a line is shown, counted from 1. Lines are 64 bit numbers, so the last of them
    is shown as 0. -/
def shownLine (line : Nat) : Nat := (line + 1) % 18446744073709551616

/-- How a failure is shown: its line, counted from 1, and below it the message. -/
def report (palette : Palette) (line : Nat) (message : String) : String :=
  palette.paint .bold "Line:" ++ " " ++ toString (shownLine line) ++ "\n" ++ message

end Kiln
