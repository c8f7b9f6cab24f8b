import ColumnConnector.Proofs.Outcomes
import ColumnConnector.Proofs.Text.Utf8
import ColumnConnector.Value.Text

/-!
# Values through their stored form and back

A value is decoded from its stored form as a value of its own type, bit for bit
(`decode_encode`), and whatever is decoded, parsed or coerced has the type that was asked for.
-/

namespace ColumnConnector

namespace ValueType

/-- Reading back a fixed-width number. -/
theorem fixed_bigEndian (target : ValueType) {width n : Nat} (h : n < Nat.pow 256 width) :
    fixed target width (Bytes.bigEndian width n) = .ok n := by
  unfold fixed
  rw [if_pos (Bytes.length_bigEndian width n), Bytes.ofBigEndian_bigEndian, Nat.mod_eq_of_lt h]

/-- A value is decoded from its stored form. -/
theorem decode_encode (v : CellValue) : v.type.decode v.encode = .ok v := by
  cases v with
  | bytes raw => rfl
  | utf8 s => simp only [CellValue.type, CellValue.encode, decode, Utf8.decode_encode]
  | int32 n =>
    show (fun n => CellValue.int32 (UInt32.ofNat n).toInt32) <$>
      fixed .int32 4 (Bytes.bigEndian 4 n.toUInt32.toNat) = .ok (.int32 n)
    rw [fixed_bigEndian .int32 n.toUInt32.toNat_lt]
    refine map_eq_ok_iff.2 ⟨n.toUInt32.toNat, rfl, ?_⟩
    rw [UInt32.ofNat_toNat]
    rfl
  | int64 n =>
    show (fun n => CellValue.int64 (UInt64.ofNat n).toInt64) <$>
      fixed .int64 8 (Bytes.bigEndian 8 n.toUInt64.toNat) = .ok (.int64 n)
    rw [fixed_bigEndian .int64 n.toUInt64.toNat_lt]
    refine map_eq_ok_iff.2 ⟨n.toUInt64.toNat, rfl, ?_⟩
    rw [UInt64.ofNat_toNat]
    rfl
  | float64 x =>
    show (fun n => CellValue.float64 ⟨UInt64.ofNat n⟩) <$>
      fixed .float64 8 (Bytes.bigEndian 8 x.bits.toNat) = .ok (.float64 x)
    rw [fixed_bigEndian .float64 x.bits.toNat_lt]
    refine map_eq_ok_iff.2 ⟨x.bits.toNat, rfl, ?_⟩
    rw [UInt64.ofNat_toNat]
  | bool b => cases b <;> rfl

/-- Are all stored forms of the type of one length? -/
def isFixedWidth : ValueType → Bool
  | .bytes | .utf8 => false
  | .int32 | .int64 | .float64 | .bool => true

/-- No bytes at all are a value of the other types only. -/
theorem exists_decode_nil_iff {t : ValueType} :
    (∃ v, t.decode [] = .ok v) ↔ t.isFixedWidth = false := by
  cases t with
  | bytes | utf8 => exact ⟨fun _ => rfl, fun _ => ⟨_, rfl⟩⟩
  | int32 | int64 | float64 | bool =>
    constructor
    · rintro ⟨v, h⟩
      cases h
    · intro h
      cases h

/-- What is decoded as a type has the type. -/
theorem type_of_decode {t : ValueType} {raw : Bytes} {v : CellValue} (h : t.decode raw = .ok v) :
    v.type = t := by
  unfold decode at h
  cases t with
  | bytes =>
    cases h
    rfl
  | utf8 =>
    dsimp only at h
    split at h
    · cases h
      rfl
    · cases h
  | int32 | int64 | float64 | bool =>
    obtain ⟨n, -, rfl⟩ := map_eq_ok_iff.1 h
    rfl

/-- What is parsed as a type has the type. -/
theorem type_of_parse {t : ValueType} {s : String} {v : CellValue} (h : t.parse s = .ok v) :
    v.type = t := by
  unfold parse at h
  cases t with
  | bytes | utf8 =>
    cases h
    rfl
  | int32 | int64 | float64 | bool =>
    obtain ⟨n, -, rfl⟩ := map_eq_ok_iff.1 h
    rfl

end ValueType

/-- A value coerced to a type has the type. -/
theorem CellValue.type_of_coerce {v w : CellValue} {t : ValueType} (h : v.coerce t = .ok w) :
    w.type = t := by
  unfold coerce at h
  split at h
  · next hsame =>
    cases h
    exact hsame
  · split at h
    · exact ValueType.type_of_decode h
    · cases h
      rfl
    · exact ValueType.type_of_parse h

end ColumnConnector
