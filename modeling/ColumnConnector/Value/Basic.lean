import ColumnConnector.Numeral.Binary64
import ColumnConnector.Text.Blank
import ColumnConnector.Text.Lowercase
import ColumnConnector.Text.Utf8

/-!
# Cell values and their types

A stored cell is bytes; a cell of a message is a typed value.  This file holds the six types,
their names, the values, and the ways in which a conversion between the two sides can fail.
-/

namespace ColumnConnector

/-- The declared type of a row identifier or of a cell value. -/
inductive ValueType where
  | bytes
  | utf8
  | int32
  | int64
  | float64
  | bool
deriving DecidableEq, Repr

namespace ValueType

/-- What an undeclared type counts as. -/
def standard : ValueType := .utf8

def name : ValueType → String
  | .bytes => "bytes"
  | .utf8 => "utf8"
  | .int32 => "int32"
  | .int64 => "int64"
  | .float64 => "float64"
  | .bool => "bool"

def all : List ValueType := [.bytes, .utf8, .int32, .int64, .float64, .bool]

/-- Every spelling of a type, all in lowercase. -/
def spellings : List (String × ValueType) := [
  ("bytes", .bytes), ("binary", .bytes), ("byte[]", .bytes),
  ("utf8", .utf8), ("string", .utf8), ("java.lang.string", .utf8),
  ("int32", .int32), ("int", .int32), ("integer", .int32), ("java.lang.integer", .int32),
  ("int64", .int64), ("long", .int64), ("java.lang.long", .int64),
  ("float64", .float64), ("double", .float64), ("java.lang.double", .float64),
  ("bool", .bool), ("boolean", .bool), ("java.lang.boolean", .bool)]

end ValueType

/-- A typed cell value or row identifier. -/
inductive CellValue where
  | bytes (raw : Bytes)
  | utf8 (text : String)
  | int32 (n : Int32)
  | int64 (n : Int64)
  | float64 (x : Binary64)
  | bool (b : Bool)
deriving DecidableEq

namespace CellValue

def type : CellValue → ValueType
  | .bytes _ => .bytes
  | .utf8 _ => .utf8
  | .int32 _ => .int32
  | .int64 _ => .int64
  | .float64 _ => .float64
  | .bool _ => .bool

/-- The text of a text value. -/
def text? : CellValue → Option String
  | .utf8 s => some s
  | _ => none

/-- Equality of values, doubles being compared as numbers. -/
def same : CellValue → CellValue → Bool
  | .float64 x, .float64 y => x.sameNumber y
  | v, w => v = w

end CellValue

/-- Why a value cannot be converted. -/
inductive ConversionError where
  | unknownType (name : String)
  | invalidLength (target : ValueType) (length : Nat)
  | invalidUtf8 (fault : Utf8.Fault)
  | unparsable (text : String) (target : ValueType)
deriving DecidableEq, Repr

namespace ConversionError

def message : ConversionError → String
  | .unknownType name => "unknown value type '" ++ name ++ "'"
  | .invalidLength target length =>
    "cannot convert " ++ Decimal.ofNat length ++ " bytes to " ++ target.name
  | .invalidUtf8 fault => "invalid utf-8: " ++ fault.message
  | .unparsable text target => "cannot parse '" ++ text ++ "' as " ++ target.name

end ConversionError

/-- The type that a text names, in any case and with blanks around it. -/
def ValueType.read (s : String) : Except ConversionError ValueType :=
  let name := Text.lowercase (Text.trim s)
  match ValueType.spellings.lookup name with
  | some t => .ok t
  | none => .error (.unknownType name)

end ColumnConnector
