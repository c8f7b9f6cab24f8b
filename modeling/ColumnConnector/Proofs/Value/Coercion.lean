import ColumnConnector.Proofs.Value.RoundTrip
import ColumnConnector.Proofs.Value.Texts

/-!
# Coercion

Coercion takes one of four routes: a value of the target type stays as it is, bytes are decoded, the
stored form serves as bytes, and everything else goes through the text.  One lemma for each route
(`CellValue.coerce_self` and so on) stands for the definition from here on.

On the routes through bytes and through the text of a whole number or a truth value nothing is lost.
A whole number that the target has no room for is refused (`CellValue.coerce_int64_int32`).
-/

namespace ColumnConnector.CellValue

variable {v : CellValue} {t : ValueType}

/-! ### The routes -/

theorem coerce_self (v : CellValue) : v.coerce v.type = .ok v := by
  unfold coerce
  exact if_pos rfl

theorem coerce_bytes (hv : v.type ≠ .bytes) : v.coerce .bytes = .ok (.bytes v.encode) := by
  unfold coerce
  rw [if_neg hv]
  cases v with
  | bytes raw => exact absurd rfl hv
  | utf8 | int32 | int64 | float64 | bool => rfl

theorem coerce_of_bytes {raw : Bytes} (ht : t ≠ .bytes) : (bytes raw).coerce t = t.decode raw := by
  unfold coerce
  exact if_neg ht.symm

theorem coerce_text (hv : v.type ≠ .bytes) (ht : t ≠ .bytes) (hne : v.type ≠ t) :
    v.coerce t = t.parse v.text := by
  unfold coerce
  rw [if_neg hne]
  cases v with
  | bytes raw => exact absurd rfl hv
  | utf8 | int32 | int64 | float64 | bool =>
    cases t with
    | bytes => exact absurd rfl ht
    | utf8 | int32 | int64 | float64 | bool => rfl

/-! ### There and back -/

/-- A value that is neither bytes nor a double is found again in its text. -/
theorem coerce_utf8_back (hbytes : v.type ≠ .bytes) (hfloat : v.type ≠ .float64) :
    ∃ s, v.coerce .utf8 = .ok (.utf8 s) ∧ (utf8 s).coerce v.type = .ok v := by
  by_cases hutf8 : v.type = .utf8
  · cases v with
    | utf8 s => exact ⟨s, coerce_self _, coerce_self _⟩
    | bytes | int32 | int64 | float64 | bool => cases hutf8
  · refine ⟨v.text, coerce_text hbytes (by decide) hutf8, ?_⟩
    rw [coerce_text (v := .utf8 v.text) (by simp [type]) hbytes (Ne.symm hutf8)]
    exact ValueType.parse_text hbytes hfloat

/-- Every value is found again in its bytes. -/
theorem coerce_bytes_back (v : CellValue) :
    ∃ raw, v.coerce .bytes = .ok (.bytes raw) ∧ (bytes raw).coerce v.type = .ok v := by
  by_cases hbytes : v.type = .bytes
  · cases v with
    | bytes raw => exact ⟨raw, coerce_self _, coerce_self _⟩
    | utf8 | int32 | int64 | float64 | bool => cases hbytes
  · refine ⟨v.encode, coerce_bytes hbytes, ?_⟩
    rw [coerce_of_bytes hbytes]
    exact ValueType.decode_encode v

/-! ### Whole numbers -/

theorem parse_int32_ofInt (n : Int) : ValueType.int32.parse (Decimal.ofInt n) =
    if -2147483648 ≤ n ∧ n ≤ 2147483647 then .ok (.int32 (Int32.ofInt n))
    else .error (.unparsable (Decimal.ofInt n) .int32) := by
  have hread : Integer.read 2147483648 2147483647 (Decimal.ofInt n) = _ :=
    Integer.read_ofInt (by decide) n
  simp only [ValueType.parse, Decimal.trim_ofInt, Integer.readInt32, hread]
  by_cases hlow : n < -2147483648
  · rw [if_pos (show n < -(2147483648 : Nat) from hlow), if_neg (by omega)]
    rfl
  rw [if_neg (show ¬ n < -(2147483648 : Nat) from hlow)]
  by_cases hhigh : 2147483647 < n
  · rw [if_pos (show (2147483647 : Nat) < n from hhigh), if_neg (by omega)]
    rfl
  · rw [if_neg (show ¬ (2147483647 : Nat) < n from hhigh), if_pos (by omega)]
    rfl

/-- A whole number is taken into 32 bits exactly if it fits. -/
theorem coerce_int64_int32 (n : Int64) : (int64 n).coerce .int32 =
    if -2147483648 ≤ n.toInt ∧ n.toInt ≤ 2147483647 then .ok (.int32 (Int32.ofInt n.toInt))
    else .error (.unparsable (Decimal.ofInt n.toInt) .int32) := by
  rw [coerce_text (by simp [type]) (by decide) (by simp [type])]
  exact parse_int32_ofInt n.toInt

/-- There is always room for a whole number of 32 bits. -/
theorem coerce_int32_int64 (n : Int32) : (int32 n).coerce .int64 = .ok (.int64 n.toInt64) := by
  rw [coerce_text (by simp [type]) (by decide) (by simp [type])]
  have htext : (int32 n).text = (int64 n.toInt64).text := by
    simp only [text, Int32.toInt_toInt64]
  rw [htext]
  exact ValueType.parse_text (v := .int64 n.toInt64) (by simp [type]) (by simp [type])

/-- A coerced value is of the type that was asked for.  Whole numbers and truth values are found again
in their text, and values of every type in their bytes.  A whole number of 64 bits is taken into 32
bits as the same number if it fits and is refused if it does not; the other way round it is always
taken as the same number. -/
theorem coerce_lawful (v : CellValue) (t : ValueType) (m : Int32) (n : Int64) :
    (∀ w, v.coerce t = .ok w → w.type = t) ∧
    (v.type = .int32 ∨ v.type = .int64 ∨ v.type = .bool →
      ∃ s, v.coerce .utf8 = .ok (.utf8 s) ∧ (utf8 s).coerce v.type = .ok v) ∧
    ((∃ w, (int64 n).coerce .int32 = .ok w) ↔
      -2147483648 ≤ n.toInt ∧ n.toInt ≤ 2147483647) ∧
    (∀ w, (int64 n).coerce .int32 = .ok w → ∃ k : Int32, w = .int32 k ∧ k.toInt = n.toInt) ∧
    (∃ k : Int64, (int32 m).coerce .int64 = .ok (.int64 k) ∧ k.toInt = m.toInt) ∧
    (∃ raw, v.coerce .bytes = .ok (.bytes raw) ∧ (bytes raw).coerce v.type = .ok v) := by
  refine ⟨fun w h => type_of_coerce h, ?_, ?_, ?_, ?_, coerce_bytes_back v⟩
  · intro htype
    refine coerce_utf8_back ?_ ?_ <;> rcases htype with h | h | h <;> rw [h] <;> decide
  · rw [coerce_int64_int32]
    split
    · next h => exact ⟨fun _ => h, fun _ => ⟨_, rfl⟩⟩
    · next h =>
      refine ⟨?_, fun hfits => absurd hfits h⟩
      rintro ⟨w, hw⟩
      cases hw
  · intro w hw
    rw [coerce_int64_int32] at hw
    split at hw
    · next h =>
      cases hw
      refine ⟨Int32.ofInt n.toInt, rfl, ?_⟩
      exact Int32.toInt_ofInt_of_le (by omega) (by omega)
    · cases hw
  · exact ⟨m.toInt64, coerce_int32_int64 m, Int32.toInt_toInt64 m⟩

/-- The least whole number of 64 bits goes through its text, and is refused as one of 32 bits. -/
theorem coerce_lawful_least :
    (∃ s, (int64 (-9223372036854775808)).coerce .utf8 = .ok (.utf8 s) ∧
      (utf8 s).coerce .int64 = .ok (.int64 (-9223372036854775808))) ∧
    ¬ ∃ w, (int64 (-9223372036854775808)).coerce .int32 = .ok w := by
  obtain ⟨-, htext, hfits, -⟩ := coerce_lawful (int64 (-9223372036854775808)) .utf8 0
    (-9223372036854775808)
  refine ⟨htext (.inr (.inl rfl)), ?_⟩
  rw [hfits]
  decide

end ColumnConnector.CellValue
