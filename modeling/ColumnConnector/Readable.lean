import ColumnConnector.Numeral.FloatText
import ColumnConnector.Numeral.Integer
import ColumnConnector.Operation
import ColumnConnector.Value.Text

/-!
# Typed texts

Settings and headers are texts that are read as one of a few types.  A `Readable` type has a
reader, and words for the reasons why a text is refused.
-/

namespace ColumnConnector

/-- A type that texts are read as. -/
class Readable (α : Type) where
  Fault : Type
  read : String → Except Fault α
  reason : Fault → String

namespace Readable

/-- The value that a text denotes, blanks around it aside, or the reason why it has none. -/
def readTrimmed (α : Type) [Readable α] (s : String) : Except String α :=
  match Readable.read (Text.trim s) with
  | .ok a => .ok a
  | .error fault => .error (Readable.reason fault)

end Readable

instance : Readable UInt64 := ⟨IntegerFault, Integer.readCount, IntegerFault.message⟩

instance : Readable Int64 := ⟨IntegerFault, Integer.readInt64, IntegerFault.message⟩

instance : Readable Binary64 := ⟨FloatFault, Binary64.read, FloatFault.message⟩

instance : Readable Bool := ⟨BoolFault, BoolFault.read, BoolFault.message⟩

instance : Readable ValueType := ⟨ConversionError, ValueType.read, ConversionError.message⟩

instance : Readable Operation :=
  ⟨ConfigurationFault, Operation.read, fun fault => (ConnectorError.configuration fault).message⟩

end ColumnConnector
