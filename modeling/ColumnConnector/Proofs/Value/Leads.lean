import ColumnConnector.Proofs.Value.Order
import Mathlib.Data.List.DropRight

/-!
# A text before the value that it denotes

A text and the stored form of the value that is read from it are two byte strings, and which of them
comes first is mostly decided by their leads.  A text that denotes a number or a truth value begins
with a sign, a digit, a letter or a blank, none of which is before the tab
(`ValueType.exists_head_of_parse`), so its bytes come after the stored form of `false` and after that
of any number whose first byte is less.  No text has as great a lead as `true` has.
-/

namespace ColumnConnector

/-! ### Heads of texts -/

namespace Text

theorem le_of_isBlank {c : Char} (h : isBlank c = true) : 9 ≤ c.toNat := by
  by_contra hlt
  have hnone : blankBounds.takeWhile (· ≤ c.toNat) = [] := by
    rw [blankBounds, List.takeWhile_cons_of_neg]
    simpa using hlt
  rw [isBlank, withinBounds, hnone] at h
  cases h

/-- What is left of a text without its blanks begins like the text, unless that begins with a
blank. -/
theorem exists_head_of_trim {s : String} {c : Char} {rest : List Char}
    (h : (trim s).toList = c :: rest) :
    ∃ first others, s.toList = first :: others ∧ (isBlank first = true ∨ first = c) := by
  rw [trim, String.toList_ofList] at h
  cases hs : s.toList with
  | nil =>
    rw [hs] at h
    cases h
  | cons first others =>
    refine ⟨first, others, rfl, ?_⟩
    by_cases hblank : isBlank first = true
    · exact .inl hblank
    · have hstart : c :: rest <+: first :: others := by
        rw [← h, hs, trimChars, List.dropWhile_cons_of_neg hblank]
        exact List.rdropWhile_prefix isBlank (first :: others)
      exact .inr (List.cons_prefix_cons.1 hstart).1.symm

end Text

/-- A text that is an integer begins with a sign or a digit. -/
theorem Integer.exists_head_of_read {low high : Nat} {s : String} {n : Int}
    (h : read low high s = .ok n) : ∃ c rest, s.toList = c :: rest ∧ 9 ≤ c.toNat := by
  rw [read] at h
  cases hs : s.toList with
  | nil =>
    rw [hs] at h
    cases h
  | cons c rest =>
    refine ⟨c, rest, rfl, ?_⟩
    rw [hs, readChars.eq_def] at h
    split at h
    · cases h
    · cases h
    · cases h
    · next heq =>
      cases heq
      decide
    · next heq =>
      cases heq
      decide
    · obtain ⟨m, hm, -⟩ := map_eq_ok_iff.1 h
      rw [readDigits] at hm
      cases hdigit : Decimal.digit? c with
      | none =>
        rw [hdigit] at hm
        cases hm
      | some d =>
        unfold Decimal.digit? at hdigit
        split at hdigit
        · omega
        · cases hdigit

/-- A text that is an integer or a truth value begins with the tab or a later character. -/
theorem ValueType.exists_head_of_parse {t : ValueType} {s : String} {v : CellValue}
    (ht : t = .int32 ∨ t = .int64 ∨ t = .bool) (h : t.parse s = .ok v) :
    ∃ c rest, s.toList = c :: rest ∧ 9 ≤ c.toNat := by
  have hinteger : ∀ {low high : Nat} {n : Int},
      Integer.read low high (Text.trim s) = .ok n →
        ∃ c rest, (Text.trim s).toList = c :: rest ∧ 9 ≤ c.toNat :=
    Integer.exists_head_of_read
  have htrimmed : ∃ c rest, (Text.trim s).toList = c :: rest ∧ 9 ≤ c.toNat := by
    rcases ht with rfl | rfl | rfl
    · obtain ⟨n, hn, -⟩ := map_eq_ok_iff.1 h
      obtain ⟨m, hm, -⟩ := map_eq_ok_iff.1 (mapError_eq_ok_iff.1 hn)
      exact hinteger hm
    · obtain ⟨n, hn, -⟩ := map_eq_ok_iff.1 h
      obtain ⟨m, hm, -⟩ := map_eq_ok_iff.1 (mapError_eq_ok_iff.1 hn)
      exact hinteger hm
    · obtain ⟨b, hb, -⟩ := map_eq_ok_iff.1 h
      have hread := mapError_eq_ok_iff.1 hb
      rw [BoolFault.read] at hread
      split at hread
      · next htrue =>
        rw [htrue]
        exact ⟨'t', "rue".toList, rfl, by decide⟩
      · split at hread
        · next hfalse =>
          rw [hfalse]
          exact ⟨'f', "alse".toList, rfl, by decide⟩
        · cases hread
  obtain ⟨c, rest, hc, hle⟩ := htrimmed
  obtain ⟨first, others, hs, hfirst⟩ := Text.exists_head_of_trim hc
  refine ⟨first, others, hs, ?_⟩
  rcases hfirst with hblank | rfl
  · exact Text.le_of_isBlank hblank
  · exact hle

/-! ### Leads of stored forms -/

namespace Utf8

/-- From the tab on a character has a lead no less than the tab, and the lead is never `0xff`. -/
theorem exists_lead_le (c : Char) : ∃ lead rest, encodeChar c = lead :: rest ∧
    (9 ≤ c.toNat → 9 ≤ lead.toNat) ∧ lead.toNat < 0xff := by
  have hvalid := toNat_valid c
  unfold encodeChar
  dsimp only
  split_ifs
  all_goals
    refine ⟨_, _, rfl, ?_⟩
    rw [toNat_ofNat (by omega)]
    omega

theorem compare_encode_of_small {s : String} {c : Char} {rest : List Char} (hs : s.toList = c :: rest)
    (hc : 9 ≤ c.toNat) {first : UInt8} (hfirst : first.toNat < 9) (raw : Bytes) :
    compare (encode s) (first :: raw) = .gt := by
  obtain ⟨lead, others, hlead, hle, -⟩ := exists_lead_le c
  have hgt : compare lead.toNat first.toNat = .gt := by
    rw [Nat.compare_eq_gt]
    exact Nat.lt_of_lt_of_le hfirst (hle hc)
  rw [encode, hs, encodeChars_cons, hlead, List.cons_append, List.compare_cons_cons,
    UInt8.compare_eq_toNat_compare_toNat, hgt]
  rfl

theorem compare_encode_last (s : String) : compare (encode s) [0xff] = .lt := by
  rw [encode]
  cases s.toList with
  | nil => rfl
  | cons c rest =>
    obtain ⟨lead, others, hlead, -, hlt⟩ := exists_lead_le c
    have hbefore : compare lead.toNat (0xff : UInt8).toNat = .lt := Nat.compare_eq_lt.2 hlt
    rw [encodeChars_cons, hlead, List.cons_append, List.compare_cons_cons,
      UInt8.compare_eq_toNat_compare_toNat, hbefore]
    rfl

end Utf8

/-- A number that is small for its width has a small first byte. -/
theorem Bytes.exists_lead_bigEndian {width n : Nat} (h : n < 9 * Nat.pow 256 width) :
    ∃ lead rest, bigEndian (width + 1) n = lead :: rest ∧ lead.toNat < 9 := by
  obtain ⟨lead, rest, hraw⟩ :=
    List.exists_cons_of_length_eq_add_one (length_bigEndian (width + 1) n)
  refine ⟨lead, rest, hraw, ?_⟩
  have hlength := length_bigEndian (width + 1) n
  have hvalue := ofBigEndian_bigEndian (width + 1) n
  rw [hraw, List.length_cons, Nat.succ.injEq] at hlength
  rw [hraw, ofBigEndian_cons, hlength] at hvalue
  have hmod : n % Nat.pow 256 (width + 1) ≤ n := Nat.mod_le _ _
  have hlead : lead.toNat * Nat.pow 256 width < 9 * Nat.pow 256 width := by omega
  exact Nat.lt_of_mul_lt_mul_right hlead

namespace ValueType

/-- Of the truth values the text comes before `true` and behind `false`. -/
theorem isLE_bool_of_parse {s : String} {b : Bool} (h : ValueType.bool.parse s = .ok (.bool b)) :
    (compare (Utf8.encode s) (CellValue.bool b).encode).isLE = b := by
  cases b with
  | true =>
    show (compare (Utf8.encode s) [0xff]).isLE = true
    rw [Utf8.compare_encode_last]
    rfl
  | false =>
    obtain ⟨c, rest, hs, hc⟩ := exists_head_of_parse (.inr (.inr rfl)) h
    show (compare (Utf8.encode s) [0]).isLE = false
    rw [Utf8.compare_encode_of_small hs hc (by decide)]
    rfl

/-- The text comes behind a number with a small first byte. -/
theorem compare_int32_of_parse {s : String} {n : Int32} (h : ValueType.int32.parse s = .ok (.int32 n))
    (hn : 0 ≤ n.toInt) (hlt : n.toInt < 9 * 2 ^ 24) :
    compare (Utf8.encode s) (CellValue.int32 n).encode = .gt := by
  obtain ⟨c, rest, hs, hc⟩ := exists_head_of_parse (.inl rfl) h
  have hvalue : n.toInt = n.toBitVec.toInt := rfl
  have hsmall : n.toUInt32.toNat < 9 * Nat.pow 256 3 := by
    show n.toBitVec.toNat < 9 * 2 ^ 24
    rw [hvalue, BitVec.toInt_eq_toNat_cond] at hn hlt
    omega
  obtain ⟨lead, raw, hraw, hlead⟩ := Bytes.exists_lead_bigEndian hsmall
  rw [CellValue.encode, hraw, Utf8.compare_encode_of_small hs hc hlead]

theorem compare_int64_of_parse {s : String} {n : Int64} (h : ValueType.int64.parse s = .ok (.int64 n))
    (hn : 0 ≤ n.toInt) (hlt : n.toInt < 9 * 2 ^ 56) :
    compare (Utf8.encode s) (CellValue.int64 n).encode = .gt := by
  obtain ⟨c, rest, hs, hc⟩ := exists_head_of_parse (.inr (.inl rfl)) h
  have hvalue : n.toInt = n.toBitVec.toInt := rfl
  have hsmall : n.toUInt64.toNat < 9 * Nat.pow 256 7 := by
    show n.toBitVec.toNat < 9 * 2 ^ 56
    rw [hvalue, BitVec.toInt_eq_toNat_cond] at hn hlt
    omega
  obtain ⟨lead, raw, hraw, hlead⟩ := Bytes.exists_lead_bigEndian hsmall
  rw [CellValue.encode, hraw, Utf8.compare_encode_of_small hs hc hlead]

end ValueType

end ColumnConnector
