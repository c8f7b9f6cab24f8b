import ColumnConnector.Proofs.Header
import ColumnConnector.Proofs.Outcomes
import ColumnConnector.Value.Json
import ColumnConnector.Value.Text
import ColumnConnector.Json.Render

/-!
# Values through their text and back

A text, a whole number or a truth value is read from its text as the value that it was
(`ValueType.parse_text`).  Bytes are not: their text is made of hexadecimal digits, which read as
bytes are those of the digits.
-/

namespace ColumnConnector

/-! ### Blanks -/

namespace Text

theorem trimChars_eq_self {cs : List Char} (h : ∀ c ∈ cs, isBlank c = false) :
    trimChars cs = cs := by
  have hdrop : ∀ ds : List Char, (∀ c ∈ ds, isBlank c = false) → ds.dropWhile isBlank = ds := by
    intro ds hds
    cases ds with
    | nil => rfl
    | cons c rest =>
      rw [List.dropWhile_cons_of_neg]
      rw [hds c List.mem_cons_self]
      exact Bool.false_ne_true
  rw [trimChars, hdrop cs h, hdrop cs.reverse fun c hc => h c (List.mem_reverse.1 hc),
    List.reverse_reverse]

/-- A text without blanks is left as it is. -/
theorem trim_eq_self {s : String} (h : ∀ c ∈ s.toList, isBlank c = false) : trim s = s := by
  rw [trim, trimChars_eq_self h, String.ofList_toList]

end Text

/-! ### Whole numbers -/

namespace Decimal

theorem isBlank_of_mem_chars {n : Nat} {c : Char} (h : c ∈ chars (digits n)) :
    Text.isBlank c = false := by
  obtain ⟨d, hd, rfl⟩ := List.mem_map.1 h
  have hblank : ∀ d < 10, Text.isBlank (digitChar d) = false := by decide
  exact hblank d (digits_lt_ten n d hd)

theorem toList_ofInt (n : Int) : (ofInt n).toList =
    if n < 0 then '-' :: chars (digits n.natAbs) else chars (digits n.natAbs) :=
  String.toList_ofList

theorem trim_ofInt (n : Int) : Text.trim (ofInt n) = ofInt n := by
  apply Text.trim_eq_self
  rw [toList_ofInt]
  split
  · exact List.forall_mem_cons.2 ⟨by decide, fun c => isBlank_of_mem_chars⟩
  · exact fun c => isBlank_of_mem_chars

/-- More digits denote no smaller number. -/
theorem le_foldl (ds : List Nat) (n : Nat) : n ≤ ds.foldl (fun n d => n * 10 + d) n := by
  induction ds generalizing n with
  | nil => exact Nat.le_refl n
  | cons d rest ih =>
    have hrest := ih (n * 10 + d)
    rw [List.foldl_cons]
    omega

end Decimal

namespace Integer

open Decimal

variable {low high : Nat} {ds : List Nat}

/-- Digits behind a number of the range are read as the number that they make of it, if that is in
the range too. -/
theorem readDigits_chars {limit : Nat} {overflow : IntegerFault} (hds : ∀ d ∈ ds, d < 10) {n : Nat}
    (hn : n ≤ limit) :
    readDigits limit overflow n (chars ds) =
      if ds.foldl (fun n d => n * 10 + d) n ≤ limit then .ok (ds.foldl (fun n d => n * 10 + d) n)
      else .error overflow := by
  induction ds generalizing n with
  | nil => exact (if_pos hn).symm
  | cons d rest ih =>
    obtain ⟨hd, hrest⟩ := List.forall_mem_cons.1 hds
    show readDigits limit overflow n (digitChar d :: chars rest) = _
    unfold readDigits
    rw [digit?_digitChar hd]
    dsimp only
    split
    · next hle => exact ih hrest hle
    · next hgt =>
      -- Once out of the range, the number stays out of it.
      have hle := le_foldl rest (n * 10 + d)
      rw [List.foldl_cons, if_neg (by omega)]

/-- Digits without a sign. -/
theorem readChars_chars (hne : ds ≠ []) (hds : ∀ d ∈ ds, d < 10) :
    readChars low high (chars ds) =
      if value ds ≤ high then .ok (value ds : Int) else .error .tooLarge := by
  obtain ⟨d, rest, rfl⟩ := List.exists_cons_of_ne_nil hne
  have hdigit : digit? (digitChar d) = some d := digit?_digitChar (hds d List.mem_cons_self)
  have hplus : digitChar d ≠ '+' := fun h => by
    rw [h] at hdigit
    cases hdigit
  have hminus : digitChar d ≠ '-' := fun h => by
    rw [h] at hdigit
    cases hdigit
  have hchars : readChars low high (chars (d :: rest)) =
      Int.ofNat <$> readDigits high .tooLarge 0 (chars (d :: rest)) := by
    show readChars low high (digitChar d :: chars rest) = _
    unfold readChars
    split <;> simp_all [chars]
  rw [hchars, readDigits_chars hds (Nat.zero_le _)]
  show Int.ofNat <$> (if value (d :: rest) ≤ high then _ else _) = _
  split <;> rfl

/-- Digits behind a minus sign. -/
theorem readChars_minus (hlow : low ≠ 0) (hne : ds ≠ []) (hds : ∀ d ∈ ds, d < 10) :
    readChars low high ('-' :: chars ds) =
      if value ds ≤ low then .ok (-(value ds : Int)) else .error .tooSmall := by
  obtain ⟨d, rest, rfl⟩ := List.exists_cons_of_ne_nil hne
  show (if low = 0 then .error .invalidDigit
    else (fun n => -Int.ofNat n) <$> readDigits low .tooSmall 0 (chars (d :: rest))) = _
  rw [if_neg hlow, readDigits_chars hds (Nat.zero_le _)]
  show (fun n => -Int.ofNat n) <$> (if value (d :: rest) ≤ low then _ else _) = _
  split <;> rfl

/-- The text of a number is read as the number if it is in the range, and never as another one. -/
theorem read_ofInt (hlow : low ≠ 0) (n : Int) : read low high (ofInt n) =
    if n < -low then .error .tooSmall else if high < n then .error .tooLarge else .ok n := by
  have hvalue := value_digits n.natAbs
  have hne := digits_ne_nil n.natAbs
  have hds := digits_lt_ten n.natAbs
  rw [read, toList_ofInt]
  split
  · rw [readChars_minus hlow hne hds, hvalue]
    by_cases h : n.natAbs ≤ low
    · rw [if_pos h, if_neg (by omega), if_neg (by omega), show -(n.natAbs : Int) = n by omega]
    · rw [if_neg h, if_pos (by omega)]
  · rw [readChars_chars hne hds, hvalue]
    by_cases h : n.natAbs ≤ high
    · rw [if_pos h, if_neg (by omega), if_neg (by omega), show (n.natAbs : Int) = n by omega]
    · rw [if_neg h, if_neg (by omega), if_pos (by omega)]

theorem readInt32_ofInt (n : Int32) : readInt32 (ofInt n.toInt) = .ok n := by
  have hlow := n.le_toInt
  have hhigh := n.toInt_lt
  rw [readInt32, read_ofInt (by decide), if_neg (by omega), if_neg (by omega)]
  exact congrArg Except.ok (Int32.ofInt_toInt n)

theorem readInt64_ofInt (n : Int64) : readInt64 (ofInt n.toInt) = .ok n := by
  have hlow := n.le_toInt
  have hhigh := n.toInt_lt
  rw [readInt64, read_ofInt (by decide), if_neg (by omega), if_neg (by omega)]
  exact congrArg Except.ok (Int64.ofInt_toInt n)

theorem readCount_ofInt (n : UInt64) : readCount (ofInt n.toNat) = .ok n := by
  have hhigh := n.toNat_lt
  have hread : read 0 18446744073709551615 (ofInt n.toNat) = .ok (n.toNat : Int) := by
    rw [read, toList_ofInt, if_neg (by omega), Int.natAbs_natCast,
      readChars_chars (digits_ne_nil _) (digits_lt_ten _), value_digits, if_pos (by omega)]
  rw [readCount, hread]
  exact congrArg Except.ok (UInt64.ofNat_toNat (x := n))

end Integer

/-! ### Values -/

/-- A value that is neither bytes nor a double is read from its text. -/
theorem ValueType.parse_text {v : CellValue} (hbytes : v.type ≠ .bytes) (hfloat : v.type ≠ .float64) :
    v.type.parse v.text = .ok v := by
  cases v with
  | bytes raw => exact absurd rfl hbytes
  | utf8 s => rfl
  | int32 n =>
    simp only [CellValue.type, CellValue.text, parse, Decimal.trim_ofInt, Integer.readInt32_ofInt]
    rfl
  | int64 n =>
    simp only [CellValue.type, CellValue.text, parse, Decimal.trim_ofInt, Integer.readInt64_ofInt]
    rfl
  | float64 x => exact absurd rfl hfloat
  | bool b => cases b <;> decide

/-- In JSON such a value has the same text. -/
theorem CellValue.text_contentJson {v : CellValue} (hbytes : v.type ≠ .bytes)
    (hfloat : v.type ≠ .float64) : v.contentJson.text = v.text := by
  cases v with
  | bytes raw => exact absurd rfl hbytes
  | utf8 s => rfl
  | int32 n => exact String.ofList_toList
  | int64 n => exact String.ofList_toList
  | float64 x => exact absurd rfl hfloat
  | bool b => cases b <;> decide

end ColumnConnector
