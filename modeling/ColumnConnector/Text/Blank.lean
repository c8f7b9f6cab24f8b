import ColumnConnector.Text.Ranges

/-!
# Blank characters

The twenty-five characters with the White_Space property, and the text without the blanks at
its two ends.
-/

namespace ColumnConnector.Text

/-- Boundaries of the White_Space property. -/
def blankBounds : List Nat := [
  0x9, 0xe, 0x20, 0x21, 0x85, 0x86, 0xa0, 0xa1, 0x1680, 0x1681, 0x2000, 0x200b, 0x2028, 0x202a,
  0x202f, 0x2030, 0x205f, 0x2060, 0x3000, 0x3001]

def isBlank (c : Char) : Bool := withinBounds blankBounds c

/-- The characters without the blanks at either end. -/
def trimChars (cs : List Char) : List Char :=
  ((cs.dropWhile isBlank).reverse.dropWhile isBlank).reverse

def trim (s : String) : String := String.ofList (trimChars s.toList)

end ColumnConnector.Text
