import ColumnConnector.Numeral.Integer
import ColumnConnector.Numeral.FloatText
import ColumnConnector.Value.Codec

/-!
# Values as text, and coercion

Every value has a text, and every type reads some texts.  Coercion to another type goes through
the text, except that bytes are decoded and that coercion to bytes is the stored form.
-/

namespace ColumnConnector

/-- Why a text is not a truth value. -/
inductive BoolFault where
  | neither
deriving DecidableEq, Repr

namespace BoolFault

def message : BoolFault → String
  | .neither => "provided string was not `true` or `false`"

/-- The truth value that the text names. -/
def read (s : String) : Except BoolFault Bool :=
  if s = "true" then .ok true else if s = "false" then .ok false else .error .neither

end BoolFault

namespace CellValue

/-- The text of a value; bytes are shown as hexadecimal digits. -/
def text : CellValue → String
  | .bytes raw => raw.hex
  | .utf8 s => s
  | .int32 n => Decimal.ofInt n.toInt
  | .int64 n => Decimal.ofInt n.toInt
  | .float64 x => FloatLayout.plain.write x
  | .bool b => if b then "true" else "false"

end CellValue

/-- The value of the target type that the text denotes.  Blanks around numbers and truth values
are passed over. -/
def ValueType.parse (target : ValueType) (s : String) : Except ConversionError CellValue :=
  let unparsable : ConversionError := .unparsable s target
  let trimmed := Text.trim s
  match target with
  | .bytes => .ok (.bytes (Utf8.encode s))
  | .utf8 => .ok (.utf8 s)
  | .int32 => (Integer.readInt32 trimmed).mapError (fun _ => unparsable) |>.map .int32
  | .int64 => (Integer.readInt64 trimmed).mapError (fun _ => unparsable) |>.map .int64
  | .float64 => (Binary64.read trimmed).mapError (fun _ => unparsable) |>.map .float64
  | .bool => (BoolFault.read trimmed).mapError (fun _ => unparsable) |>.map .bool

/-- The value as one of the target type. -/
def CellValue.coerce (v : CellValue) (target : ValueType) : Except ConversionError CellValue :=
  if v.type = target then .ok v
  else
    match v, target with
    | .bytes raw, _ => target.decode raw
    | v, .bytes => .ok (.bytes v.encode)
    | v, _ => target.parse v.text

end ColumnConnector
