/-
Module: Kiln.Text.Style
Purpose: Emphasis of pieces of output on a terminal. A palette decides whether styled pieces are wrapped
  in terminal control sequences or left plain, so that every message has one definition for both.
Main exports: Style, Palette, Palette.paint
-/

namespace Kiln.Text

/-- The looks that output uses. -/
inductive Style where
  | bold
  | boldRed
  | boldCyan
  | boldYellow
  | dimmed
  | cyan
  | yellow
  | green
  | blue
deriving DecidableEq, Repr, Inhabited

/-- The parameters that select a look in a terminal control sequence. -/
def Style.code : Style → String
  | .bold => "1"
  | .boldRed => "1;31"
  | .boldCyan => "1;36"
  | .boldYellow => "1;33"
  | .dimmed => "2"
  | .cyan => "36"
  | .yellow => "33"
  | .green => "32"
  | .blue => "34"

/-- The control sequence that switches a look on. -/
def Style.start (style : Style) : String := "\x1b[" ++ style.code ++ "m"

/-- The control sequence that switches every look off. -/
def resetSequence : String := "\x1b[0m"

/-- Whether styled pieces carry control sequences. -/
inductive Palette where
  | plain
  | ansi
deriving DecidableEq, Repr, Inhabited

/-- `text` in the given style. Where the text itself switches looks off, the style is switched on again,
    so that it lasts to the end of the piece. -/
def Palette.paint (palette : Palette) (style : Style) (text : String) : String :=
  match palette with
  | .plain => text
  | .ansi =>
    style.start ++ text.replace resetSequence (resetSequence ++ style.start) ++ resetSequence

/-- The word that opens most messages. -/
def Palette.errorWord (palette : Palette) : String := palette.paint .boldRed "Error"

end Kiln.Text
