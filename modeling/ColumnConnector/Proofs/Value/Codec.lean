import ColumnConnector.Proofs.Text.WellFormed
import ColumnConnector.Proofs.Value.Forms

/-!
# Values and bytes, both ways

What a type accepts is told without the decoder: any bytes, the bytes of the grammar of UTF-8, or any
bytes of one width.  `ValueType.exists_decode_iff_accepts` says that this is what is decoded.

Together with the stored forms this makes up the laws of the two directions
(`ValueType.codec_lawful`).  They are inverse to each other but for one case: a truth value is read
from every single byte, and of these only two are ever written.
-/

namespace ColumnConnector.ValueType

/-- The byte strings that hold a value of the type. -/
def Accepts : ValueType → Bytes → Prop
  | .bytes, _ => True
  | .utf8, raw => Utf8.WellFormed raw
  | .int32, raw => raw.length = 4
  | .int64, raw => raw.length = 8
  | .float64, raw => raw.length = 8
  | .bool, raw => raw.length = 1

variable {t : ValueType} {raw : Bytes}

theorem exists_fixed_iff {width : Nat} :
    (∃ n, fixed t width raw = .ok n) ↔ raw.length = width := by
  unfold fixed
  constructor
  · rintro ⟨n, h⟩
    split at h
    · assumption
    · cases h
  · intro h
    exact ⟨raw.ofBigEndian, if_pos h⟩

/-- A type of fixed width decodes what has the width. -/
theorem exists_map_fixed_iff {width : Nat} {f : Nat → CellValue} :
    (∃ v, f <$> fixed t width raw = .ok v) ↔ raw.length = width := by
  rw [← exists_fixed_iff (t := t)]
  simp only [map_eq_ok_iff]
  constructor
  · rintro ⟨v, n, hn, -⟩
    exact ⟨n, hn⟩
  · rintro ⟨n, hn⟩
    exact ⟨f n, n, hn, rfl⟩

theorem exists_decode_utf8_iff :
    (∃ v, ValueType.utf8.decode raw = .ok v) ↔ ∃ s, Utf8.decode raw = .ok s := by
  constructor
  · rintro ⟨v, h⟩
    simp only [decode] at h
    split at h
    · next s hs => exact ⟨s, hs⟩
    · cases h
  · rintro ⟨s, hs⟩
    exact ⟨.utf8 s, by simp only [decode, hs]⟩

theorem exists_decode_iff_accepts : (∃ v, t.decode raw = .ok v) ↔ t.Accepts raw := by
  cases t with
  | bytes => exact ⟨fun _ => trivial, fun _ => ⟨.bytes raw, rfl⟩⟩
  | utf8 => exact exists_decode_utf8_iff.trans Utf8.wellFormed_iff.symm
  | int32 | int64 | float64 | bool => exact exists_map_fixed_iff

/-- A truth value comes back to the byte that it was decoded from only if that was one of two. -/
theorem encode_of_decode_bool_iff {v : CellValue} (h : ValueType.bool.decode raw = .ok v) :
    v.encode = raw ↔ raw = [0x00] ∨ raw = [0xff] := by
  have hform : ValueType.bool.RoundTrips raw ↔ raw = [0x00] ∨ raw = [0xff] := roundTrips_iff_form
  rw [← hform]
  constructor
  · intro hencode
    exact ⟨v, h, hencode⟩
  · rintro ⟨w, hw, hencode⟩
    cases h.symm.trans hw
    exact hencode

/-- Every value is decoded from its stored form, bit for bit, so that the stored forms of different
values of one type differ.  What is decoded as a type is of the type, and its stored form is the bytes
it was decoded from, except exactly for truth values out of a byte that is neither of the two written
ones.  Decoding goes well on the byte strings that the type accepts and on no others. -/
theorem codec_lawful (v w : CellValue) (t : ValueType) (raw : Bytes) :
    v.type.decode v.encode = .ok v ∧
    (v.type = w.type → v ≠ w → v.encode ≠ w.encode) ∧
    (∀ u, t.decode raw = .ok u → u.type = t ∧
      (u.encode = raw ↔ ¬ (t = .bool ∧ raw ≠ [0x00] ∧ raw ≠ [0xff]))) ∧
    ((∃ u, t.decode raw = .ok u) ↔ t.Accepts raw) := by
  refine ⟨decode_encode v, ?_, ?_, exists_decode_iff_accepts⟩
  · intro htype hne hencode
    have hv := decode_encode v
    rw [hencode, htype, decode_encode w] at hv
    exact hne (Except.ok.inj hv).symm
  · intro u hu
    refine ⟨type_of_decode hu, ?_⟩
    by_cases ht : t = .bool
    · subst ht
      rw [encode_of_decode_bool_iff hu]
      simp only [true_and]
      tauto
    · simp only [encode_of_decode hu ht, ht, false_and, not_false_eq_true]

/-- The least whole number and minus one have different stored forms; a byte that is written for no
truth value is read as one and comes back as another byte; half a character is no text. -/
theorem codec_lawful_limits :
    (CellValue.int32 (-2147483648)).encode ≠ (CellValue.int32 (-1)).encode ∧
      ValueType.bool.decode [0x80] = .ok (.bool true) ∧
      (CellValue.bool true).encode ≠ [0x80] ∧
      ¬ ∃ v, ValueType.utf8.decode [0xe2, 0x82] = .ok v := by
  obtain ⟨-, hdiffer, hdecoded, -⟩ :=
    codec_lawful (.int32 (-2147483648)) (.int32 (-1)) .bool [0x80]
  obtain ⟨-, -, -, hutf8⟩ := codec_lawful (.bool true) (.bool true) .utf8 [0xe2, 0x82]
  have hbool : ValueType.bool.decode [0x80] = .ok (.bool true) := rfl
  obtain ⟨-, hback⟩ := hdecoded (.bool true) hbool
  refine ⟨hdiffer rfl (by decide), hbool, ?_, ?_⟩
  · exact fun h => hback.1 h ⟨rfl, by decide, by decide⟩
  · rw [hutf8, Accepts, Utf8.wellFormed_iff]
    rintro ⟨s, hs⟩
    cases hs

end ColumnConnector.ValueType
