import ColumnConnector.Proofs.Numeral.Doubles
import ColumnConnector.Proofs.Value.Texts
import Mathlib.Data.List.TakeWhile

/-!
# Doubles that are read as whole numbers

The text of a double has a point unless its digits end before it, and a text with a point is not a whole
number.  What is left is the digits of the shortest decimal number with as many zeros as it takes, so a
double that is read as a whole number is read as its shortest one (`Integer.shortestWhole_of_read`).
-/

namespace ColumnConnector

/-! ### Zeros -/

namespace Decimal

theorem value_append_zeros (ds : List Nat) (z : Nat) :
    value (ds ++ List.replicate z 0) = value ds * 10 ^ z := by
  induction z with
  | zero => simp
  | succ z ih =>
    have hlast : value (ds ++ List.replicate z 0 ++ [0]) = value (ds ++ List.replicate z 0) * 10 := by
      rw [value, List.foldl_append]
      rfl
    rw [List.replicate_succ', ← List.append_assoc, hlast, ih, Nat.pow_succ, Nat.mul_assoc]

end Decimal

namespace Scientific

/-- The digits up to the point, for a number that has none behind it. -/
def wholeDigits (s : Scientific) : List Nat :=
  s.digits ++ List.replicate (s.point.toNat - s.digits.length) 0

variable {s : Scientific}

theorem wholeDigits_ne_nil (hpoint : 0 < s.point) : s.wholeDigits ≠ [] := by
  apply List.ne_nil_of_length_pos
  rw [wholeDigits, List.length_append, List.length_replicate]
  omega

theorem wholeDigits_lt_ten (hs : ∀ d ∈ s.digits, d < 10) : ∀ d ∈ s.wholeDigits, d < 10 := by
  intro d hd
  rcases List.mem_append.1 hd with hd | hd
  · exact hs d hd
  · rw [List.eq_of_mem_replicate hd]
    decide

end Scientific

namespace Binary64

/-- The digits of a number are those that are written for it and some zeros. -/
theorem exists_digits_eq (n : Nat) (k : Int) :
    ∃ z, Decimal.digits n = (scientific n k).digits ++ List.replicate z 0 := by
  have hsplit := List.takeWhile_append_dropWhile (p := (· == 0)) (l := (Decimal.digits n).reverse)
  have hzeros : (Decimal.digits n).reverse.takeWhile (· == 0) =
      List.replicate ((Decimal.digits n).reverse.takeWhile (· == 0)).length 0 := by
    apply List.eq_replicate_of_mem
    intro d hd
    exact beq_iff_eq.1 (List.mem_takeWhile_imp (p := (· == 0)) hd)
  refine ⟨((Decimal.digits n).reverse.takeWhile (· == 0)).length, ?_⟩
  have hreverse := congrArg List.reverse hsplit
  rw [List.reverse_append, List.reverse_reverse, hzeros, List.reverse_replicate] at hreverse
  exact hreverse.symm

/-- What is written up to the point is the number on the grid. -/
theorem cast_value_wholeDigits {n : Nat} {k : Int} (hpoint : 0 < (scientific n k).point)
    (hcount : (scientific n k).digits.length ≤ (scientific n k).point.toNat) :
    (Decimal.value (scientific n k).wholeDigits : ℚ) = n * 10 ^ k := by
  obtain ⟨z, hz⟩ := exists_digits_eq n k
  have hn : n = Decimal.value (scientific n k).digits * 10 ^ z := by
    rw [← Decimal.value_append_zeros, ← hz, Decimal.value_digits]
  have hlength : (scientific n k).point = ((scientific n k).digits.length + z : Nat) + k := by
    show ((Decimal.digits n).length : Int) + k = _
    rw [hz, List.length_append, List.length_replicate]
  rw [Scientific.wholeDigits, Decimal.value_append_zeros]
  generalize (scientific n k).point = point at *
  generalize (scientific n k).digits = ds at *
  have hzeros : ((point.toNat - ds.length : Nat) : Int) = z + k := by omega
  rw [hn]
  push_cast
  rw [mul_assoc, ← zpow_natCast, ← zpow_natCast, ← zpow_add₀ (by norm_num), hzeros]

theorem lt_ten_of_mem_shortest {tie : Tie} {m d : Nat} (h : d ∈ (shortest tie m).digits) : d < 10 := by
  rcases shortest_cases tie m with ⟨n, k, hs, -⟩ | ⟨hs, -⟩
  · obtain ⟨z, hz⟩ := exists_digits_eq n k
    rw [hs] at h
    apply Decimal.digits_lt_ten n
    rw [hz]
    exact List.mem_append_left _ h
  · rw [hs] at h
    cases h

theorem isShortest_zero : IsShortest 0 0 where
  rounds := rounds_of_amount_eq (amount_zero.trans Nat.cast_zero.symm)
  roundest _ _ _ := dvd_zero _
  closest _ _ _ := by
    rw [amount_zero, Nat.cast_zero, sub_self, abs_zero]
    exact abs_nonneg _

end Binary64

/-! ### Points -/

namespace Integer

variable {low high : Nat}

theorem digit?_of_readDigits {limit : Nat} {overflow : IntegerFault} {cs : List Char} {n r : Nat}
    (h : readDigits limit overflow n cs = .ok r) : ∀ c ∈ cs, Decimal.digit? c ≠ none := by
  induction cs generalizing n with
  | nil => exact fun c hc => absurd hc List.not_mem_nil
  | cons c rest ih =>
    unfold readDigits at h
    split at h
    · cases h
    · next d hd =>
      split at h
      · refine List.forall_mem_cons.2 ⟨?_, ih h⟩
        rw [hd]
        exact Option.some_ne_none d
      · cases h

/-- What is read as a whole number has no point. -/
theorem point_not_mem {cs : List Char} {n : Int} (h : readChars low high cs = .ok n) : '.' ∉ cs := by
  have hpoint : Decimal.digit? '.' = none := by decide
  have hdigits : ∀ {limit : Nat} {overflow : IntegerFault} {ds : List Char} {f : Nat → Int},
      f <$> readDigits limit overflow 0 ds = .ok n → '.' ∉ ds := by
    intro limit overflow ds f hmap hmem
    obtain ⟨r, hr, -⟩ := map_eq_ok_iff.1 hmap
    exact digit?_of_readDigits hr _ hmem hpoint
  unfold readChars at h
  split at h
  · cases h
  · cases h
  · cases h
  · simpa using hdigits h
  · split at h
    · cases h
    · simpa using hdigits h
  · exact hdigits h

end Integer

/-! ### Texts of doubles -/

namespace FloatLayout

/-- Digits that end before the point are written with zeros up to it. -/
theorem placed_plain_eq {s : Scientific} (hpoint : 0 < s.point)
    (hcount : s.digits.length ≤ s.point.toNat) :
    plain.placed s = Decimal.chars s.wholeDigits := by
  unfold placed
  dsimp only
  rw [if_neg (by omega), if_pos hcount]
  simp [plain, Scientific.wholeDigits, Decimal.chars, Decimal.digitChar]

/-- Other digits are written with a point. -/
theorem whole_of_no_point {s : Scientific} (h : '.' ∉ plain.placed s) :
    0 < s.point ∧ s.digits.length ≤ s.point.toNat := by
  unfold placed at h
  dsimp only at h
  split at h
  · simp at h
  · split at h
    · exact ⟨by omega, by assumption⟩
    · simp at h

/-- All characters are digits or points. -/
theorem isBlank_of_mem_placed {s : Scientific} (hs : ∀ d ∈ s.digits, d < 10) {c : Char}
    (h : c ∈ plain.placed s) : Text.isBlank c = false := by
  have hzero : Text.isBlank '0' = false := by decide
  have hpoint : Text.isBlank '.' = false := by decide
  have hdigit : ∀ d ∈ s.digits, Text.isBlank (Decimal.digitChar d) = false := by
    intro d hd
    have hall : ∀ d < 10, Text.isBlank (Decimal.digitChar d) = false := by decide
    exact hall d (hs d hd)
  unfold placed at h
  dsimp only at h
  split at h
  · simp only [List.mem_cons, List.mem_append, List.mem_replicate, Decimal.chars, List.mem_map] at h
    rcases h with rfl | rfl | ⟨-, rfl⟩ | ⟨d, hd, rfl⟩
    · exact hzero
    · exact hpoint
    · exact hzero
    · exact hdigit d hd
  · split at h
    · simp only [plain, List.append_nil, List.mem_append, List.mem_replicate, Decimal.chars,
        List.mem_map] at h
      rcases h with ⟨d, hd, rfl⟩ | ⟨-, rfl⟩
      · exact hdigit d hd
      · exact hzero
    · simp only [List.mem_cons, List.mem_append, Decimal.chars, List.mem_map] at h
      rcases h with ⟨d, hd, rfl⟩ | rfl | ⟨d, hd, rfl⟩
      · exact hdigit d (List.mem_of_mem_take hd)
      · exact hpoint
      · exact hdigit d (List.mem_of_mem_drop hd)

theorem finiteChars_plain {m : Nat} (hm : m ≠ 0) :
    plain.finiteChars m = plain.placed (Binary64.shortest .up m) := by
  unfold finiteChars
  rw [if_neg hm]
  rfl

theorem toList_write {x : Binary64} (hx : x.isFinite = true) : (plain.write x).toList =
    if x.isNegative then '-' :: plain.finiteChars x.magnitude else plain.finiteChars x.magnitude := by
  have hnan : x.isNaN = false := by
    unfold Binary64.isNaN
    unfold Binary64.isFinite at hx
    have := of_decide_eq_true hx
    exact decide_eq_false (by omega)
  unfold write
  rw [hnan, hx]
  exact String.toList_ofList

theorem trim_write {x : Binary64} (hx : x.isFinite = true) :
    Text.trim (plain.write x) = plain.write x := by
  apply Text.trim_eq_self
  have hbody : ∀ c ∈ plain.finiteChars x.magnitude, Text.isBlank c = false := by
    intro c hc
    by_cases hm : x.magnitude = 0
    · rw [hm] at hc
      obtain rfl : c = '0' := List.mem_singleton.1 hc
      decide
    · rw [finiteChars_plain hm] at hc
      exact isBlank_of_mem_placed (fun d => Binary64.lt_ten_of_mem_shortest) hc
  rw [toList_write hx]
  split
  · exact List.forall_mem_cons.2 ⟨by decide, hbody⟩
  · exact hbody

/-- The characters of a finite magnitude without a point are the digits of a whole number, which is the
shortest one if it is of 64 bits. -/
theorem exists_digits_of_no_point {m : Nat} (hm : m < Binary64.infinity)
    (h : '.' ∉ plain.finiteChars m) : ∃ ds, ds ≠ [] ∧ (∀ d ∈ ds, d < 10) ∧
      plain.finiteChars m = Decimal.chars ds ∧
      (Decimal.value ds ≤ 2 ^ 63 → Binary64.IsShortest m (Decimal.value ds)) := by
  by_cases hzero : m = 0
  · rw [hzero]
    exact ⟨[0], by simp, by simp, rfl, fun _ => Binary64.isShortest_zero⟩
  rw [finiteChars_plain hzero] at h ⊢
  obtain ⟨hpoint, hcount⟩ := whole_of_no_point h
  refine ⟨_, Scientific.wholeDigits_ne_nil hpoint,
    Scientific.wholeDigits_lt_ten fun d => Binary64.lt_ten_of_mem_shortest,
    placed_plain_eq hpoint hcount, fun hbound => ?_⟩
  rcases Binary64.shortest_cases .up m with ⟨n, k, hs, htaken, hcoarsest⟩ | ⟨hs, -⟩
  · rw [hs] at hpoint hcount hbound ⊢
    have hvalue := Binary64.cast_value_wholeDigits hpoint hcount
    exact Binary64.IsShortest.of_onGrid? hm hzero htaken hvalue hbound hcoarsest
  · rw [hs] at hpoint
    exact absurd hpoint (lt_irrefl 0)

/-- The characters of a whole number up to 2⁵⁴ are its digits. -/
theorem exists_digits_of_le {m v : Nat} (hm : m < Binary64.infinity) (hv : Binary64.amount m = v)
    (hle : v ≤ 2 ^ 54) : ∃ ds, ds ≠ [] ∧ (∀ d ∈ ds, d < 10) ∧
      plain.finiteChars m = Decimal.chars ds ∧ Decimal.value ds = v := by
  by_cases hzero : m = 0
  · rw [hzero, Binary64.amount_zero] at hv
    obtain rfl : 0 = v := by exact_mod_cast hv
    rw [hzero]
    exact ⟨[0], by simp, by simp, rfl, rfl⟩
  obtain ⟨n, k, hs, rfl⟩ := Binary64.exists_shortest_eq .up hm hzero hv hle
  -- The power of ten is not negative, so the point is not before the last digit.
  obtain ⟨hpoint, hcount⟩ : 0 < (Binary64.scientific n k).point ∧
      (Binary64.scientific n k).digits.length ≤ (Binary64.scientific n k).point.toNat := by
    obtain ⟨z, hz⟩ := Binary64.exists_digits_eq n k
    have hlength := congrArg List.length hz
    rw [List.length_append, List.length_replicate] at hlength
    have hsome := List.length_pos_of_ne_nil (Decimal.digits_ne_nil n)
    have hpoint : (Binary64.scientific n k).point = (Decimal.digits n).length + k := rfl
    omega
  have hvalue := Binary64.cast_value_wholeDigits hpoint hcount
  rw [zpow_natCast] at hvalue
  refine ⟨(Binary64.scientific n k).wholeDigits, Scientific.wholeDigits_ne_nil hpoint,
    Scientific.wholeDigits_lt_ten fun d hd => ?_, ?_, by exact_mod_cast hvalue⟩
  · rw [← hs] at hd
    exact Binary64.lt_ten_of_mem_shortest hd
  · rw [finiteChars_plain hzero, hs]
    exact placed_plain_eq hpoint hcount

end FloatLayout

/-- A double whose text is read as a whole number is read as its shortest one. -/
theorem Integer.shortestWhole_of_read {low high : Nat} (hlow : low ≠ 0) (hlow' : low ≤ 2 ^ 63)
    (hhigh : high ≤ 2 ^ 63) {x : Binary64} (hx : x.isFinite = true) {n : Int}
    (h : read low high (Text.trim (FloatLayout.plain.write x)) = .ok n) :
    -low ≤ n ∧ n ≤ high ∧ x.magnitude + 1 < Binary64.infinity ∧ x.ShortestWhole n := by
  have hm : x.magnitude < Binary64.infinity := of_decide_eq_true hx
  rw [FloatLayout.trim_write hx, read] at h
  have hpoint := point_not_mem h
  rw [FloatLayout.toList_write hx] at h hpoint
  have hbody : '.' ∉ FloatLayout.plain.finiteChars x.magnitude := by
    intro hmem
    apply hpoint
    split
    · exact List.mem_cons_of_mem _ hmem
    · exact hmem
  obtain ⟨ds, hne, hds, hchars, hshortest⟩ := FloatLayout.exists_digits_of_no_point hm hbody
  rw [hchars] at h
  have hfound : ∀ sign, x.isNegative = sign → Decimal.value ds ≤ 2 ^ 63 →
      x.magnitude + 1 < Binary64.infinity ∧
        x.ShortestWhole (Binary64.signedInt sign (Decimal.value ds)) := by
    intro sign hsign hbound
    have hvalue := hshortest hbound
    have hsucc := hvalue.rounds.succ_lt_infinity hbound
    exact ⟨hsucc, hsign ▸ hvalue.shortestWhole hsucc⟩
  split at h
  · next hneg =>
    rw [readChars_minus hlow hne hds] at h
    split at h
    · next hle =>
      cases h
      exact ⟨by omega, by omega, hfound true hneg (hle.trans hlow')⟩
    · cases h
  · next hpos =>
    rw [readChars_chars hne hds] at h
    split at h
    · next hle =>
      cases h
      exact ⟨by omega, by omega, hfound false (Bool.eq_false_of_not_eq_true hpos) (hle.trans hhigh)⟩
    · cases h

/-- A whole number up to 2⁵⁴ is read if there is room for it. -/
theorem Integer.read_write_of_le {low high : Nat} (hlow : low ≠ 0) {x : Binary64}
    (hx : x.isFinite = true) {v : Int} (hv : x.number = v) (hle : v.natAbs ≤ 2 ^ 54)
    (hleast : -low ≤ v) (hgreatest : v ≤ high) :
    read low high (Text.trim (FloatLayout.plain.write x)) = .ok v := by
  have hm : x.magnitude < Binary64.infinity := of_decide_eq_true hx
  have hamount : Binary64.amount x.magnitude = v.natAbs := by
    rw [← Binary64.abs_number, hv, Nat.cast_natAbs, Int.cast_abs]
  obtain ⟨ds, hne, hds, hchars, hvalue⟩ := FloatLayout.exists_digits_of_le hm hamount hle
  have hsign : v = Binary64.signedInt x.isNegative v.natAbs := by
    have hcast : (v : ℚ) = Binary64.signedInt x.isNegative v.natAbs := by
      rw [Binary64.cast_signedInt, ← hamount, ← Binary64.number_eq, hv]
    exact_mod_cast hcast
  rw [FloatLayout.trim_write hx, read, FloatLayout.toList_write hx, hchars]
  cases hneg : x.isNegative with
  | true =>
    rw [hneg] at hsign
    have hv' : v = -(v.natAbs : Int) := hsign
    rw [if_pos rfl, readChars_minus hlow hne hds, hvalue, if_pos (by omega), ← hv']
  | false =>
    rw [hneg] at hsign
    have hv' : v = (v.natAbs : Int) := hsign
    rw [if_neg Bool.false_ne_true, readChars_chars hne hds, hvalue, if_pos (by omega), ← hv']

end ColumnConnector
