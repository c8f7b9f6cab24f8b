import ColumnConnector.Proofs.Numeral.Rounding
import Mathlib.Algebra.Order.Field.Power
import Mathlib.Tactic.NormNum

/-!
# Reading decimal numbers

What is read is the magnitude nearest to the decimal number, without exception
(`nearestDecimal_eq_iff`): where the power of ten is not even computed, the number is less than half of
the least positive magnitude or beyond the greatest one.

A whole number of at most 53 bits, times a power of two, is itself the number of a magnitude
(`exists_amount_eq`), and a magnitude whose number needs more bits is whole (`exists_whole`).  So what is
nearest to a whole number is always whole (`Rounds.whole`).
-/

namespace ColumnConnector

namespace Decimal

theorem lt_pow_length_digits (n : Nat) : n < 10 ^ (digits n).length := by
  induction n using Nat.strongRecOn with
  | _ n ih =>
    rw [digits]
    split
    · next hlt => simpa using hlt
    · have hrest := ih (n / 10) (by omega)
      rw [List.length_append, List.length_singleton, Nat.pow_succ]
      omega

theorem pow_length_digits_le {n : Nat} (hn : n ≠ 0) : 10 ^ (digits n).length ≤ n * 10 := by
  induction n using Nat.strongRecOn with
  | _ n ih =>
    rw [digits]
    split
    · rw [List.length_singleton]
      omega
    · have hrest := ih (n / 10) (by omega) (by omega)
      rw [List.length_append, List.length_singleton, Nat.pow_succ]
      omega

end Decimal

namespace Binary64

/-! ### Decimal numbers -/

theorem amount_zero : amount 0 = 0 := by
  have hunits : units 0 = 0 := by decide
  rw [amount, hunits, Nat.cast_zero, zero_div]

theorem zpow_ten_eq (e : Int) :
    ((10 : ℚ) ^ e.toNat / 10 ^ (-e).toNat : ℚ) = 10 ^ e := by
  rw [← zpow_natCast, ← zpow_natCast, ← zpow_sub₀ (by norm_num)]
  congr 1
  omega

theorem exists_one_eq : ∃ e, one = 2 ^ e := ⟨1074, by decide +kernel⟩

theorem two_mul_one_lt : 2 * one < 10 ^ 331 := by decide +kernel

theorem units_infinity_lt : units infinity < 10 ^ 310 * one := by decide +kernel

section

variable {mantissa m : Nat} {exponent : Int}

/-- A decimal number is less than the power of ten behind its leading digit. -/
theorem decimal_lt (mantissa : Nat) (exponent : Int) :
    (mantissa * 10 ^ exponent : ℚ) < 10 ^ (exponent + (Decimal.digits mantissa).length) := by
  have hten : (0 : ℚ) < 10 ^ exponent := zpow_pos (by norm_num) _
  have hupper : (mantissa : ℚ) < 10 ^ (Decimal.digits mantissa).length := by
    exact_mod_cast Decimal.lt_pow_length_digits mantissa
  rw [add_comm, zpow_add₀ (by norm_num), zpow_natCast]
  gcongr

theorem le_decimal (hmantissa : mantissa ≠ 0) (exponent : Int) :
    (10 : ℚ) ^ (exponent + (Decimal.digits mantissa).length) ≤ mantissa * 10 ^ exponent * 10 := by
  have hlower : (10 : ℚ) ^ (Decimal.digits mantissa).length ≤ mantissa * 10 := by
    exact_mod_cast Decimal.pow_length_digits_le hmantissa
  rw [add_comm, zpow_add₀ (by norm_num), zpow_natCast, mul_right_comm]
  gcongr

/-- A decimal number that small is less than half of a unit. -/
theorem rounds_zero_of_small (h : exponent + (Decimal.digits mantissa).length < -330) :
    Rounds (mantissa * 10 ^ exponent) 0 := by
  have hunits : units (0 + 1) = 1 := by decide
  have hone : (2 * one : ℚ) < 10 ^ 331 := by exact_mod_cast two_mul_one_lt
  have hle : (10 : ℚ) ^ (exponent + (Decimal.digits mantissa).length) ≤ 10 ^ (-(331 : Nat) : Int) :=
    zpow_le_zpow_right₀ (by norm_num) (by omega)
  have hlt := (decimal_lt mantissa exponent).trans_le hle
  rw [zpow_neg, zpow_natCast] at hlt
  have hpow : (0 : ℚ) < 10 ^ 331 := pow_pos (by norm_num) _
  have hq : (0 : ℚ) ≤ mantissa * 10 ^ exponent := by positivity
  generalize (10 : ℚ) ^ 331 = small at *
  generalize (mantissa * 10 ^ exponent : ℚ) = q at *
  apply rounds_of_neighbours
  · rw [asNear_iff_of_lt Nat.one_pos, amount_zero, zero_add, amount, hunits, Nat.cast_one,
      le_div_iff₀ cast_one_pos]
    refine ⟨?_, fun _ => rfl⟩
    calc 2 * q * one = q * (2 * one) := by ring
      _ ≤ q * small := mul_le_mul_of_nonneg_left hone.le hq
      _ ≤ small⁻¹ * small := mul_le_mul_of_nonneg_right hlt.le hpow.le
      _ = 1 := inv_mul_cancel₀ hpow.ne'
  · intro p hp
    cases hp

/-- A decimal number that great is beyond infinity, where nothing finite is nearest. -/
theorem not_rounds_of_large (hmantissa : mantissa ≠ 0) (hm : m < infinity)
    (h : 310 < exponent + (Decimal.digits mantissa).length) :
    ¬ Rounds (mantissa * 10 ^ exponent) m := by
  intro hrounds
  have hle : (10 : ℚ) ^ ((310 + 1 : Nat) : Int) ≤
      10 ^ (exponent + (Decimal.digits mantissa).length) :=
    zpow_le_zpow_right₀ (by norm_num) (by omega)
  have hlarge := hle.trans (le_decimal hmantissa exponent)
  rw [zpow_natCast, pow_succ] at hlarge
  have hunits : (units infinity : ℚ) < 10 ^ 310 * one := by exact_mod_cast units_infinity_lt
  have hinfinity : amount infinity < 10 ^ 310 := (div_lt_iff₀ cast_one_pos).2 hunits
  have hless := amount_strictMono hm
  have hmiddle := ((asNear_iff_of_lt hm).1 (hrounds infinity)).1
  generalize (10 : ℚ) ^ 310 = large at *
  linarith

theorem cast_decimal_eq (mantissa : Nat) (exponent : Int) :
    ((mantissa * one * Nat.pow 10 exponent.toNat : Nat) : ℚ) /
      (Nat.pow 10 (-exponent).toNat : Nat) / one = mantissa * 10 ^ exponent := by
  have hone := cast_one_pos.ne'
  rw [← zpow_ten_eq]
  simp only [Nat.pow_eq]
  push_cast
  generalize (one : ℚ) = unit at *
  field_simp

/-- A finite magnitude is read exactly from the decimal numbers that it is nearest to. -/
theorem nearestDecimal_eq_iff (hm : m < infinity) :
    nearestDecimal mantissa exponent = m ↔ Rounds (mantissa * 10 ^ exponent) m := by
  unfold nearestDecimal
  dsimp only
  by_cases hsmall : mantissa = 0 ∨ exponent + (Decimal.digits mantissa).length < -330
  · have hnone : Rounds (mantissa * 10 ^ exponent) 0 := by
      rcases hsmall with rfl | hsmall
      · rw [Nat.cast_zero, zero_mul, ← amount_zero]
        exact rounds_amount 0
      · exact rounds_zero_of_small hsmall
    rw [if_pos hsmall]
    exact ⟨fun h => h ▸ hnone, fun h => hnone.unique h⟩
  rw [if_neg hsmall]
  by_cases hlarge : 310 < exponent + (Decimal.digits mantissa).length
  · have hnot := not_rounds_of_large (fun h => hsmall (.inl h)) hm hlarge
    rw [if_pos hlarge]
    exact ⟨fun h => absurd h hm.ne', fun h => absurd h hnot⟩
  · have hden : 0 < Nat.pow 10 (-exponent).toNat := Nat.pow_pos (by decide)
    rw [if_neg hlarge, nearest_eq_iff hden hm, cast_decimal_eq]

end

/-! ### Whole numbers -/

theorem exists_units_eq {c : Nat} (hc : c ≤ 2 * fractionSize) (e : Nat) :
    ∃ m, units m = c * 2 ^ e := by
  induction e generalizing c with
  | zero => exact ⟨0 * fractionSize + c, units_parts hc (.inr rfl)⟩
  | succ e ih =>
    by_cases h : fractionSize ≤ c
    · exact ⟨(e + 1) * fractionSize + c, units_parts hc (.inl h)⟩
    · obtain ⟨m, hm⟩ := ih (c := 2 * c) (by omega)
      refine ⟨m, hm.trans ?_⟩
      rw [Nat.pow_succ]
      ring

/-- A whole number of at most 53 bits, times a power of two, is the number of a magnitude. -/
theorem exists_amount_eq {c : Nat} (hc : c ≤ 2 * fractionSize) (e : Nat) :
    ∃ m, amount m = c * 2 ^ e := by
  obtain ⟨k, hk⟩ := exists_one_eq
  obtain ⟨m, hm⟩ := exists_units_eq hc (e + k)
  refine ⟨m, ?_⟩
  have hone := cast_one_pos.ne'
  have hunits : units m = c * 2 ^ e * one := by rw [hm, hk, Nat.pow_add, Nat.mul_assoc]
  rw [amount, hunits, Nat.cast_mul, mul_div_cancel_right₀ _ hone]
  push_cast
  rfl

/-- A magnitude whose number has more than 53 bits stands for a whole one. -/
theorem exists_whole {m : Nat} (h : (2 * fractionSize : ℚ) ≤ amount m) :
    ∃ n : Nat, amount m = n := by
  obtain ⟨shift, c, rfl, hc, hparts⟩ := exists_parts m
  have hone := cast_one_pos
  have hunits := units_parts hc.le hparts
  rw [amount, le_div_iff₀ hone, hunits] at h
  have hle : 2 * fractionSize * one ≤ c * 2 ^ shift := by exact_mod_cast h
  obtain ⟨k, hk⟩ := exists_one_eq
  have hshift : k ≤ shift := by
    by_contra hlt
    have hpow : 2 ^ shift ≤ one := hk ▸ Nat.pow_le_pow_right (by decide) (by omega)
    have := Nat.mul_lt_mul_of_lt_of_le hc hpow one_pos
    omega
  refine ⟨c * 2 ^ (shift - k), ?_⟩
  have hsplit : c * 2 ^ shift = c * 2 ^ (shift - k) * one := by
    rw [hk, Nat.mul_assoc, Nat.pow_sub_mul_pow 2 hshift]
  rw [amount, hunits, hsplit, Nat.cast_mul, mul_div_cancel_right₀ _ hone.ne']

/-- A number that is the number of a magnitude has this one as nearest. -/
theorem Rounds.amount_eq {m : Nat} {q : ℚ} (h : Rounds q m) (hexact : ∃ n, amount n = q) :
    amount m = q := by
  obtain ⟨n, rfl⟩ := hexact
  rw [h.unique (rounds_amount n)]

/-- To be nearest to a number of at least this amount a magnitude needs it too. -/
theorem Rounds.le_amount {m : Nat} {q : ℚ} (h : Rounds q m) {n : Nat} (hle : amount n ≤ q) :
    amount n ≤ amount m := by
  refine amount_strictMono.monotone (Nat.le_of_not_lt fun hlt => ?_)
  have hless := amount_strictMono hlt
  have hmiddle := ((asNear_iff_of_lt hlt).1 (h n)).1
  linarith

theorem Rounds.amount_le {m : Nat} {q : ℚ} (h : Rounds q m) {n : Nat} (hle : q ≤ amount n) :
    amount m ≤ amount n := by
  refine amount_strictMono.monotone (Nat.le_of_not_lt fun hlt => ?_)
  have hless := amount_strictMono hlt
  have hmiddle := ((asNear_iff_of_gt hlt).1 (h n)).1
  linarith

/-- What is nearest to a whole number is whole. -/
theorem Rounds.whole {m n : Nat} (h : Rounds n m) : ∃ v : Nat, amount m = v := by
  by_cases hn : n ≤ 2 * fractionSize
  · refine ⟨n, h.amount_eq ?_⟩
    simpa using exists_amount_eq hn 0
  · apply exists_whole
    obtain ⟨p, hp⟩ := exists_amount_eq (le_refl (2 * fractionSize)) 0
    have hbound : (amount p : ℚ) = 2 * fractionSize := by
      rw [hp]
      push_cast
      ring
    have hle : (2 * fractionSize : ℚ) ≤ n := by
      exact_mod_cast Nat.le_of_not_le hn
    rw [← hbound] at hle ⊢
    exact h.le_amount hle

end Binary64

end ColumnConnector
