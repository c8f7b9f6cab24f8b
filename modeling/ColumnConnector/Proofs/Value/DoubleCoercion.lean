import ColumnConnector.Proofs.Row.Request
import ColumnConnector.Proofs.Value.Coercion
import ColumnConnector.Proofs.Value.DoubleTexts

/-!
# Doubles as whole numbers

A double goes through its text to become a whole number, and the text has the shortest digits from which
the double is found again.  So it is refused unless it is whole, and it becomes the number that these
digits denote.  Up to 2⁵⁴ this is the number of the double.  Above, the digits may end in zeros where the
number does not, as for the double of `CellValue.coerce_float64_rounds`.
-/

namespace ColumnConnector

namespace CellValue

/-- The number of a whole number. -/
def whole? : CellValue → Option Int
  | .int32 n => some n.toInt
  | .int64 n => some n.toInt
  | _ => none

/-- What a double becomes as a whole number of a type: its shortest one, which is the number of the double
itself in 32 bits, up to 2⁵⁴, and above wherever the number is as round as whatever has the double as
nearest. -/
structure WholeOf (x : Binary64) (t : ValueType) (n : Int) (w : CellValue) : Prop where
  type : w.type = t
  number : w.whole? = some n
  whole : ∃ v : Int, x.number = v
  shortest : x.ShortestWhole n
  exact_of_int32 : t = .int32 → x.number = n
  exact_of_le : |x.number| ≤ 2 ^ 54 → x.number = n
  exact_iff : x.number = n ↔ ∃ v : Int, x.number = v ∧
    ∀ (i : Int) (k : Nat), x.IsNearest (i * 10 ^ k : Int) → 10 ^ k ∣ v

variable {x : Binary64} {t : ValueType}

theorem wholeOf_of_shortest {n : Int} {w : CellValue} (htype : w.type = t) (hnumber : w.whole? = some n)
    (hx : x.magnitude + 1 < Binary64.infinity) (hshortest : x.ShortestWhole n)
    (hint32 : t = .int32 → n.natAbs ≤ 2147483648) : WholeOf x t n w where
  type := htype
  number := hnumber
  whole := by
    obtain ⟨v, hv⟩ := hshortest.whole hx
    refine ⟨Binary64.signedInt x.isNegative v, ?_⟩
    rw [Binary64.cast_signedInt, Binary64.number_eq, hv]
  shortest := hshortest
  exact_of_int32 h := hshortest.eq_of_natAbs_le hx ((hint32 h).trans (by decide))
  exact_of_le := hshortest.eq_of_le hx
  exact_iff := hshortest.eq_iff

theorem coerce_float64_eq (ht : t = .int32 ∨ t = .int64) :
    (float64 x).coerce t = t.parse (FloatLayout.plain.write x) := by
  apply coerce_text
  · simp [type]
  · rcases ht with rfl | rfl <;> decide
  · rcases ht with rfl | rfl <;> simp [type]

/-- The whole numbers that a type has room for, and its values for them. -/
structure WholeRange (t : ValueType) (low high : Nat) (make : Int → CellValue) : Prop where
  low_ne_zero : low ≠ 0
  low_le : low ≤ 2 ^ 63
  high_le : high ≤ 2 ^ 63
  of_int32 : t = .int32 → low ≤ 2147483648 ∧ high ≤ 2147483648
  type : ∀ n, (make n).type = t
  number : ∀ n : Int, -low ≤ n → n ≤ high → (make n).whole? = some n
  parse : ∀ s, t.parse s = match Integer.read low high (Text.trim s) with
    | .ok n => .ok (make n)
    | .error _ => .error (.unparsable s t)

theorem wholeRange_int32 :
    WholeRange .int32 2147483648 2147483647 (fun n => .int32 (Int32.ofInt n)) where
  low_ne_zero := by decide
  low_le := by decide
  high_le := by decide
  of_int32 _ := by decide
  type _ := rfl
  number _ hlow hhigh := congrArg some (Int32.toInt_ofInt_of_le hlow (Int.lt_add_one_of_le hhigh))
  parse s := by
    simp only [ValueType.parse, Integer.readInt32]
    cases Integer.read 2147483648 2147483647 (Text.trim s) <;> rfl

theorem wholeRange_int64 :
    WholeRange .int64 9223372036854775808 9223372036854775807 (fun n => .int64 (Int64.ofInt n)) where
  low_ne_zero := by decide
  low_le := by decide
  high_le := by decide
  of_int32 h := by cases h
  type _ := rfl
  number _ hlow hhigh := congrArg some (Int64.toInt_ofInt_of_le hlow (Int.lt_add_one_of_le hhigh))
  parse s := by
    simp only [ValueType.parse, Integer.readInt64]
    cases Integer.read 9223372036854775808 9223372036854775807 (Text.trim s) <;> rfl

theorem exists_wholeRange (ht : t = .int32 ∨ t = .int64) : ∃ low high make, WholeRange t low high make ∧
    ∀ v : Int, v.natAbs ≤ 2 ^ 54 → (t = .int32 → -2147483648 ≤ v ∧ v ≤ 2147483647) →
      -low ≤ v ∧ v ≤ high := by
  rcases ht with rfl | rfl
  · exact ⟨_, _, _, wholeRange_int32, fun v _ hroom => hroom rfl⟩
  · exact ⟨_, _, _, wholeRange_int64, fun v hle _ => by omega⟩

/-- The text of a double is read as its shortest whole number or it is refused. -/
theorem coerce_float64_cases (hx : x.isFinite = true) (ht : t = .int32 ∨ t = .int64) :
    (∃ n w, (float64 x).coerce t = .ok w ∧ WholeOf x t n w) ∨
      (float64 x).coerce t = .error (.unparsable (FloatLayout.plain.write x) t) := by
  obtain ⟨low, high, make, range, -⟩ := exists_wholeRange ht
  rw [coerce_float64_eq ht, range.parse]
  cases hread : Integer.read low high (Text.trim (FloatLayout.plain.write x)) with
  | error fault => exact .inr rfl
  | ok n =>
    obtain ⟨hlow, hhigh, hsucc, hshortest⟩ :=
      Integer.shortestWhole_of_read range.low_ne_zero range.low_le range.high_le hx hread
    refine .inl ⟨n, make n, rfl, wholeOf_of_shortest (range.type n) (range.number n hlow hhigh) hsucc
      hshortest fun hint32 => ?_⟩
    have := range.of_int32 hint32
    omega

/-- A whole number up to 2⁵⁴ is taken if there is room for it. -/
theorem exists_coerce_float64 (hx : x.isFinite = true) (ht : t = .int32 ∨ t = .int64) {v : Int}
    (hv : x.number = v) (hle : v.natAbs ≤ 2 ^ 54)
    (hroom : t = .int32 → -2147483648 ≤ v ∧ v ≤ 2147483647) :
    ∃ w, (float64 x).coerce t = .ok w := by
  obtain ⟨low, high, make, range, hwithin⟩ := exists_wholeRange ht
  obtain ⟨hleast, hgreatest⟩ := hwithin v hle hroom
  rw [coerce_float64_eq ht, range.parse,
    Integer.read_write_of_le range.low_ne_zero hx hv hle hleast hgreatest]
  exact ⟨make v, rfl⟩

/-- A finite double that is taken as a whole number becomes its shortest one, and those up to 2⁵⁴ that
there is room for are taken.  A put of a row with such a cell writes that number, or there is no put,
because of the conversion. -/
theorem coerce_float64_shortest (hx : x.isFinite = true) (ht : t = .int32 ∨ t = .int64) :
    (∀ w, (float64 x).coerce t = .ok w → ∃ n, WholeOf x t n w) ∧
    (∀ v : Int, x.number = v → v.natAbs ≤ 2 ^ 54 →
      (t = .int32 → -2147483648 ≤ v ∧ v ≤ 2147483647) → ∃ w, (float64 x).coerce t = .ok w) ∧
    ∀ (r : Row) (c : Cell) (column : Column), c ∈ r.cells → c.column = .ok column →
      c.value = some (float64 x) → c.valueType = some t →
      (∃ n w, WholeOf x t n w ∧ c.write = .ok (column, w.encode) ∧ t.decode w.encode = .ok w ∧
        ∀ p, r.toPut = .ok p → (column, w.encode) ∈ p.cells) ∨
      c.write = .error (.conversion (.unparsable (FloatLayout.plain.write x) t)) ∧
        ∀ p, r.toPut ≠ .ok p := by
  have hcases := coerce_float64_cases hx ht
  refine ⟨?_, fun v hv hle => exists_coerce_float64 hx ht hv hle, ?_⟩
  · intro w hw
    rcases hcases with ⟨n, w', hw', hwhole⟩ | herror
    · rw [hw] at hw'
      cases hw'
      exact ⟨n, hwhole⟩
    · rw [hw] at herror
      cases herror
  · intro r c column hc hcolumn hvalue htype
    have hwritten : ∀ p, r.toPut = .ok p → ∃ written ∈ p.cells, c.write = .ok written := by
      intro p hp
      obtain ⟨written, hmem, hwrites⟩ := exists_mem_of_forall₂ (Row.toPut_eq_ok_iff.1 hp).cells hc
      exact ⟨written, hmem, Cell.write_eq_ok_iff.2 hwrites⟩
    have hstored : c.stored = encode <$> (float64 x).coerce t := by
      unfold Cell.stored
      rw [hvalue, htype]
    rcases hcases with ⟨n, w, hw, hwhole⟩ | herror
    · have hwrite : c.write = .ok (column, w.encode) := by
        unfold Cell.write
        rw [hcolumn, hstored, hw]
        rfl
      refine .inl ⟨n, w, hwhole, hwrite, hwhole.type ▸ ValueType.decode_encode w, fun p hp => ?_⟩
      obtain ⟨written, hmem, hother⟩ := hwritten p hp
      rw [hwrite] at hother
      cases hother
      exact hmem
    · have hwrite :
          c.write = .error (.conversion (.unparsable (FloatLayout.plain.write x) t)) := by
        unfold Cell.write
        rw [hcolumn, hstored, herror]
        rfl
      refine .inr ⟨hwrite, fun p hp => ?_⟩
      obtain ⟨written, -, hother⟩ := hwritten p hp
      rw [hwrite] at hother
      cases hother

/-- Of the doubles between 2⁵⁴ and 2⁵⁵ the second one has a multiple of ten that is read as it, with two
units less. -/
theorem coerce_float64_shortest_rounded :
    let x : Binary64 := ⟨0x4350000000000002⟩
    x.isFinite = true ∧ (float64 x).coerce .int64 = .ok (.int64 18014398509481990) ∧
      WholeOf x .int64 18014398509481990 (.int64 18014398509481990) := by
  intro x
  have hfinite : x.isFinite = true := by decide +kernel
  have hcoerce : (float64 x).coerce .int64 = .ok (.int64 18014398509481990) :=
    eq_ok_of_toOption (by decide +kernel)
  obtain ⟨htaken, -⟩ := coerce_float64_shortest hfinite (.inr rfl)
  obtain ⟨n, hn⟩ := htaken _ hcoerce
  have hnumber : n = 18014398509481990 := (Option.some.inj hn.number).symm
  exact ⟨hfinite, hcoerce, hnumber ▸ hn⟩

/-- That number is not the number of the double. -/
theorem coerce_float64_rounds : ¬ ∀ (x : Binary64) (t : ValueType) (w : CellValue) (n : Int),
    x.isFinite = true → t = .int32 ∨ t = .int64 → (float64 x).coerce t = .ok w → w.whole? = some n →
    x.number = n := by
  intro hexact
  have hcoerce : (float64 ⟨0x4350000000000002⟩).coerce .int64 = .ok (.int64 18014398509481990) :=
    eq_ok_of_toOption (by decide +kernel)
  have hnumber := hexact _ _ _ 18014398509481990 (by decide +kernel) (.inr rfl) hcoerce (by decide)
  have hsign : (⟨0x4350000000000002⟩ : Binary64).isNegative = false := by decide +kernel
  have hunits : Binary64.units (⟨0x4350000000000002⟩ : Binary64).magnitude =
      18014398509481992 * Binary64.one := by decide +kernel
  have hone := Binary64.cast_one_pos.ne'
  rw [Binary64.number, hsign, if_neg Bool.false_ne_true, Binary64.amount, hunits, Nat.cast_mul,
    mul_div_cancel_right₀ _ hone] at hnumber
  norm_num at hnumber

end CellValue

end ColumnConnector
