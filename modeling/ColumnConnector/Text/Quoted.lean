import ColumnConnector.Bytes
import ColumnConnector.Text.Ranges
import ColumnConnector.Text.ShownTable

/-!
# Quoted text

The quoted form of a name in a description: quotes around it, the quote and the backslash
escaped, the usual letters for tab, line feed, carriage return and null, and the code point in
braces for every other character that has no glyph of its own.
-/

namespace ColumnConnector.Text

/-- The lowercase hexadecimal digits of `n`, most significant first. -/
def hexDigits (n : Nat) : List Char :=
  if n < 16 then [Bytes.hexDigit n] else hexDigits (n / 16) ++ [Bytes.hexDigit (n % 16)]
termination_by n

def quotedChar (c : Char) : List Char :=
  if c = '\x00' then ['\\', '0']
  else if c = '\t' then ['\\', 't']
  else if c = '\n' then ['\\', 'n']
  else if c = '\x0d' then ['\\', 'r']
  else if c = '"' then ['\\', '"']
  else if c = '\\' then ['\\', '\\']
  else if withinBounds ShownTable.shownBounds c then [c]
  else ['\\', 'u', '\x7b'] ++ hexDigits c.toNat ++ ['\x7d']

/-- The text in quotes. -/
def quoted (s : String) : String :=
  String.ofList ('"' :: (s.toList.flatMap quotedChar ++ ['"']))

end ColumnConnector.Text
