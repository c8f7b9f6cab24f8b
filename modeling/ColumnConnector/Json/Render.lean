import ColumnConnector.Json.Basic
import ColumnConnector.Numeral.FloatText
import ColumnConnector.Bytes

/-!
# JSON text

The compact text of a JSON value: no blanks, fields in their order, and in strings only the quote,
the backslash and the control characters escaped.

The text of a header is the same, except that a string is written as it is.
-/

namespace ColumnConnector.Json

/-- A character inside a JSON string. -/
def escapedChar (c : Char) : List Char :=
  if c = '"' then ['\\', '"']
  else if c = '\\' then ['\\', '\\']
  else if c = '\x08' then ['\\', 'b']
  else if c = '\t' then ['\\', 't']
  else if c = '\n' then ['\\', 'n']
  else if c = '\x0c' then ['\\', 'f']
  else if c = '\x0d' then ['\\', 'r']
  else if c.toNat < 0x20 then
    ['\\', 'u', '0', '0', Bytes.hexDigit (c.toNat / 16), Bytes.hexDigit (c.toNat % 16)]
  else [c]

def stringChars (s : String) : List Char := '"' :: (s.toList.flatMap escapedChar ++ ['"'])

/-- The items with a comma between each two. -/
def commaSeparated : List (List Char) → List Char
  | [] => []
  | [item] => item
  | item :: rest => item ++ ',' :: commaSeparated rest

mutual

def chars : Json → List Char
  | .null => ['n', 'u', 'l', 'l']
  | .bool true => ['t', 'r', 'u', 'e']
  | .bool false => ['f', 'a', 'l', 's', 'e']
  | .int n => (Decimal.ofInt n).toList
  | .float x => (FloatLayout.exchange.write x).toList
  | .str s => stringChars s
  | .arr items => '[' :: (commaSeparated (itemChars items) ++ [']'])
  | .obj fields => '\x7b' :: (commaSeparated (fieldChars fields) ++ ['\x7d'])

def itemChars : List Json → List (List Char)
  | [] => []
  | item :: rest => chars item :: itemChars rest

def fieldChars : List (String × Json) → List (List Char)
  | [] => []
  | (name, value) :: rest => (stringChars name ++ ':' :: chars value) :: fieldChars rest

end

/-- The compact text of a value. -/
def render (j : Json) : String := String.ofList j.chars

/-- A string as it is, and any other value by its compact text. -/
def text : Json → String
  | .str s => s
  | j => j.render

end ColumnConnector.Json
