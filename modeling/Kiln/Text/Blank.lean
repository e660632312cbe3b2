/-
Module: Kiln.Text.Blank
Purpose: The characters with the Unicode property White_Space, and trimming them off a line.
Main exports: isBlank, trim
-/
import Kiln.Text.Ranges

namespace Kiln.Text

/-- The code points with the property White_Space. -/
def blankRanges : Ranges :=
  [ (0x9, 0xD), (0x20, 0x20), (0x85, 0x85), (0xA0, 0xA0), (0x1680, 0x1680), (0x2000, 0x200A),
    (0x2028, 0x2029), (0x202F, 0x202F), (0x205F, 0x205F), (0x3000, 0x3000) ]

/-- Whether `c` is white space. -/
def isBlank (c : Char) : Bool := blankRanges.contains c.toNat

/-- `text` without the white space at its two ends. -/
def trim (text : String) : String :=
  let tail := text.toList.dropWhile isBlank
  String.ofList (tail.reverse.dropWhile isBlank).reverse

end Kiln.Text
