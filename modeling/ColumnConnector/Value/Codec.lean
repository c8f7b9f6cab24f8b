import ColumnConnector.Value.Basic

/-!
# Values as stored bytes

Numbers are stored most significant byte first in their full width, a double by its bits, a truth
value as one byte with all bits equal, and text as UTF-8.

Decoding checks the width; a truth value is true unless its byte is zero.
-/

namespace ColumnConnector

/-- The stored form of a value. -/
def CellValue.encode : CellValue → Bytes
  | .bytes raw => raw
  | .utf8 s => Utf8.encode s
  | .int32 n => Bytes.bigEndian 4 n.toUInt32.toNat
  | .int64 n => Bytes.bigEndian 8 n.toUInt64.toNat
  | .float64 x => Bytes.bigEndian 8 x.bits.toNat
  | .bool b => [if b then 0xff else 0x00]

namespace ValueType

/-- The number of a byte string of the given width. -/
def fixed (target : ValueType) (width : Nat) (raw : Bytes) : Except ConversionError Nat :=
  if raw.length = width then .ok raw.ofBigEndian
  else .error (.invalidLength target raw.length)

/-- The value of this type that the bytes store. -/
def decode (target : ValueType) (raw : Bytes) : Except ConversionError CellValue :=
  match target with
  | .bytes => .ok (.bytes raw)
  | .utf8 =>
    match Utf8.decode raw with
    | .ok s => .ok (.utf8 s)
    | .error fault => .error (.invalidUtf8 fault)
  | .int32 => (fun n => .int32 (UInt32.ofNat n).toInt32) <$> fixed target 4 raw
  | .int64 => (fun n => .int64 (UInt64.ofNat n).toInt64) <$> fixed target 8 raw
  | .float64 => (fun n => .float64 ⟨UInt64.ofNat n⟩) <$> fixed target 8 raw
  | .bool => (fun n => .bool (n ≠ 0)) <$> fixed target 1 raw

end ValueType

end ColumnConnector
