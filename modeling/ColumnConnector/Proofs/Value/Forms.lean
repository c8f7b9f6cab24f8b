import ColumnConnector.Proofs.Value.RoundTrip
import Mathlib.Data.List.Induction

/-!
# Stored forms

Each type has its stored forms: any bytes, the bytes of a text, four or eight bytes, or one of the
two bytes of a truth value.  `ValueType.roundTrips_iff_form` says that these are the byte strings
that are decoded as the type and encoded to the same bytes again.

Decoding loses nothing (`ValueType.encode_of_decode`) but for truth values: any single byte counts
as one.
-/

namespace ColumnConnector

namespace Bytes

/-- The digits of the number of a byte string are its bytes. -/
theorem bigEndian_ofBigEndian (raw : Bytes) : bigEndian raw.length raw.ofBigEndian = raw := by
  induction raw using List.reverseRecOn with
  | nil => rfl
  | append_singleton rest b ih =>
    have hvalue : ofBigEndian (rest ++ [b]) = ofBigEndian rest * 256 + b.toNat := by
      simp [ofBigEndian]
    have hb := b.toNat_lt
    rw [List.length_append, List.length_singleton, bigEndian, hvalue,
      show (ofBigEndian rest * 256 + b.toNat) / 256 = ofBigEndian rest by omega,
      show (ofBigEndian rest * 256 + b.toNat) % 256 = b.toNat by omega, ih, UInt8.ofNat_toNat]

theorem ofBigEndian_lt (raw : Bytes) : raw.ofBigEndian < Nat.pow 256 raw.length := by
  have hmod := ofBigEndian_bigEndian raw.length raw.ofBigEndian
  rw [bigEndian_ofBigEndian] at hmod
  rw [hmod]
  exact Nat.mod_lt _ (Nat.pow_pos (by omega))

end Bytes

namespace ValueType

/-- The byte strings that the values of a type are stored as. -/
def Form : ValueType → Bytes → Prop
  | .bytes, _ => True
  | .utf8, raw => ∃ s, raw = Utf8.encode s
  | .int32, raw => raw.length = 4
  | .int64, raw => raw.length = 8
  | .float64, raw => raw.length = 8
  | .bool, raw => raw = [0x00] ∨ raw = [0xff]

/-- The bytes are decoded as a value of the type whose stored form they are. -/
def RoundTrips (t : ValueType) (raw : Bytes) : Prop := ∃ v, t.decode raw = .ok v ∧ v.encode = raw

variable {t : ValueType} {raw : Bytes}

/-- A value is stored in a form of its own type. -/
theorem form_encode (v : CellValue) : v.type.Form v.encode := by
  cases v with
  | bytes raw => trivial
  | utf8 s => exact ⟨s, rfl⟩
  | int32 n => exact Bytes.length_bigEndian 4 _
  | int64 n => exact Bytes.length_bigEndian 8 _
  | float64 x => exact Bytes.length_bigEndian 8 _
  | bool b => cases b <;> simp [CellValue.type, CellValue.encode, Form]

/-- A fixed-width number that is read has the bytes as its digits. -/
theorem bigEndian_of_fixed {width n : Nat} (h : fixed t width raw = .ok n) :
    n < Nat.pow 256 width ∧ Bytes.bigEndian width n = raw := by
  unfold fixed at h
  split at h
  · next hlength =>
    cases h
    rw [← hlength]
    exact ⟨Bytes.ofBigEndian_lt raw, Bytes.bigEndian_ofBigEndian raw⟩
  · cases h

/-- What is decoded, but for a truth value, is stored as the bytes that it was decoded from. -/
theorem encode_of_decode {v : CellValue} (h : t.decode raw = .ok v) (ht : t ≠ .bool) :
    v.encode = raw := by
  unfold decode at h
  cases t with
  | bytes =>
    cases h
    rfl
  | utf8 =>
    dsimp only at h
    split at h
    · next s hs =>
      cases h
      exact Utf8.encode_of_decode hs
    · cases h
  | int32 =>
    obtain ⟨n, hn, rfl⟩ := map_eq_ok_iff.1 h
    obtain ⟨hlt, hraw⟩ := bigEndian_of_fixed hn
    show Bytes.bigEndian 4 (UInt32.ofNat n).toNat = raw
    rw [UInt32.toNat_ofNat_of_lt' hlt, hraw]
  | int64 =>
    obtain ⟨n, hn, rfl⟩ := map_eq_ok_iff.1 h
    obtain ⟨hlt, hraw⟩ := bigEndian_of_fixed hn
    show Bytes.bigEndian 8 (UInt64.ofNat n).toNat = raw
    rw [UInt64.toNat_ofNat_of_lt' hlt, hraw]
  | float64 =>
    obtain ⟨n, hn, rfl⟩ := map_eq_ok_iff.1 h
    obtain ⟨hlt, hraw⟩ := bigEndian_of_fixed hn
    show Bytes.bigEndian 8 (UInt64.ofNat n).toNat = raw
    rw [UInt64.toNat_ofNat_of_lt' hlt, hraw]
  | bool => exact absurd rfl ht

theorem exists_decode_of_form (h : t.Form raw) : ∃ v, t.decode raw = .ok v := by
  cases t with
  | bytes => exact ⟨.bytes raw, rfl⟩
  | utf8 =>
    obtain ⟨s, rfl⟩ := h
    exact ⟨.utf8 s, decode_encode (.utf8 s)⟩
  | int32 | int64 | float64 => exact ⟨_, map_eq_ok_iff.2 ⟨_, if_pos h, rfl⟩⟩
  | bool =>
    rcases h with rfl | rfl
    · exact ⟨.bool false, rfl⟩
    · exact ⟨.bool true, rfl⟩

/-- The byte strings that come back from a type are the stored forms of the type. -/
theorem roundTrips_iff_form : t.RoundTrips raw ↔ t.Form raw := by
  constructor
  · rintro ⟨v, hdecode, rfl⟩
    rw [← type_of_decode hdecode]
    exact form_encode v
  · intro h
    obtain ⟨v, hdecode⟩ := exists_decode_of_form h
    refine ⟨v, hdecode, ?_⟩
    by_cases ht : t = .bool
    · subst ht
      rcases h with rfl | rfl <;> cases hdecode <;> rfl
    · exact encode_of_decode hdecode ht

/-- The byte strings that are decoded as a type are its stored forms and, as truth values, all
single bytes. -/
theorem exists_decode_iff : (∃ v, t.decode raw = .ok v) ↔
    t.Form raw ∨ t = .bool ∧ raw.length = 1 := by
  constructor
  · rintro ⟨v, hdecode⟩
    by_cases ht : t = .bool
    · subst ht
      obtain ⟨n, hn, -⟩ := map_eq_ok_iff.1 hdecode
      obtain ⟨-, hraw⟩ := bigEndian_of_fixed hn
      rw [← hraw]
      exact .inr ⟨rfl, Bytes.length_bigEndian 1 n⟩
    · exact .inl (roundTrips_iff_form.1 ⟨v, hdecode, encode_of_decode hdecode ht⟩)
  · rintro (hform | ⟨rfl, hlength⟩)
    · exact exists_decode_of_form hform
    · exact ⟨_, map_eq_ok_iff.2 ⟨_, if_pos hlength, rfl⟩⟩

end ValueType

end ColumnConnector
