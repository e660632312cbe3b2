/-
Module: Kiln.Text.Quoted
Purpose: Quoted texts as outlines and debugging forms show them: between double quotes, with everything
  that would not show as itself written as an escape.
Main exports: escape, quoted
-/
import Kiln.Text.Printable

namespace Kiln.Text

/-- The digits of `n` to base sixteen, in lower case and without leading zeros. -/
def hex (n : Nat) : String := String.ofList (Nat.toDigits 16 n)

/-- How `c` is written inside quotes. Six controls and signs have short escapes; other characters that
    would be invisible, or would merge with their neighbour, are written by their code point. The single
    quote stands for itself. -/
def escape (c : Char) : String :=
  match c with
  | '\x00' => "\\0"
  | '\t' => "\\t"
  | '\r' => "\\r"
  | '\n' => "\\n"
  | '"' => "\\\""
  | '\\' => "\\\\"
  | _ =>
    if isExtending c || !isPrintable c then "\\u\x7b" ++ hex c.toNat ++ "\x7d"
    else String.singleton c

/-- `text` between double quotes, with escapes. -/
def quoted (text : String) : String :=
  "\"" ++ String.join (text.toList.map escape) ++ "\""

end Kiln.Text
