import ColumnConnector.Numeral.Shortest
import ColumnConnector.Proofs.Numeral.Reading

/-!
# What the shortest digits denote

The digits of a magnitude are looked for on coarser grids first.  Where a grid has multiples that are
read as the magnitude, the one taken is the closest of them (`onGrid?_eq_some`); where nothing is taken
there are none (`onGrid?_eq_none`).

For a whole number of at most 64 bits this means that the digits denote a whole number that is as round
as one can be that is read as the magnitude, and the closest of these (`IsShortest.of_onGrid?`).  It is
the number of the magnitude itself up to 2⁵⁴ (`IsShortest.eq_of_le`), where there are always such digits
(`exists_shortest_eq`), and need not be above.
-/

namespace ColumnConnector.Binary64

variable {tie : Tie} {m : Nat} {k : Int}

/-! ### One grid -/

/-- The number of the magnitude stands between two neighbours on the grid. -/
theorem exists_fraction (m : Nat) (k : Int) {num den : Nat}
    (hnum : num = units m * Nat.pow 10 (-k).toNat) (hden : den = one * Nat.pow 10 k.toNat) :
    ∃ f : ℚ, 0 ≤ f ∧ f < 1 ∧ amount m = ((num / den : Nat) + f) * 10 ^ k ∧
      (2 * (num % den) < den ↔ 2 * f < 1) ∧ (den < 2 * (num % den) ↔ 1 < 2 * f) := by
  have hpos : 0 < den := by
    rw [hden]
    exact Nat.mul_pos one_pos (Nat.pow_pos (by decide))
  have hvalue : amount m = num / den * 10 ^ k := by
    have hone := cast_one_pos.ne'
    rw [← zpow_ten_eq, hnum, hden, amount]
    simp only [Nat.pow_eq]
    push_cast
    generalize (one : ℚ) = unit at *
    field_simp
  clear hnum hden
  have hposq : (0 : ℚ) < den := by exact_mod_cast hpos
  refine ⟨(num % den : Nat) / den, by positivity, ?_, ?_, ?_, ?_⟩
  · rw [div_lt_one hposq]
    exact_mod_cast Nat.mod_lt num hpos
  · have hsplit : (num : ℚ) = (num / den : Nat) * den + (num % den : Nat) := by
      exact_mod_cast (Nat.div_add_mod' num den).symm
    rw [hvalue, add_div' _ _ _ hposq.ne', ← hsplit]
  · rw [← mul_div_assoc, div_lt_one hposq]
    norm_cast
  · rw [← mul_div_assoc, one_lt_div hposq]
    norm_cast

theorem abs_sub_grid {a : ℚ} {low : Nat} {f : ℚ} (h : a = (low + f) * 10 ^ k) (j : Nat) :
    |a - j * 10 ^ k| = |low + f - j| * 10 ^ k := by
  have hten : (0 : ℚ) < 10 ^ k := zpow_pos (by norm_num) _
  rw [h, ← sub_mul, abs_mul, abs_of_pos hten]

/-- A multiple that is read as the magnitude is no closer to it than the neighbour on its side, which is
then read as the magnitude too. -/
theorem exists_neighbour {low : Nat} {f : ℚ} (hf : 0 ≤ f) (hf1 : f < 1)
    (hamount : amount m = (low + f) * 10 ^ k) {j : Nat} (hj : Rounds (j * 10 ^ k) m) :
    (Rounds (low * 10 ^ k) m ∧ |amount m - low * 10 ^ k| ≤ |amount m - j * 10 ^ k|) ∨
      (Rounds ((low + 1 : Nat) * 10 ^ k) m ∧
        |amount m - (low + 1 : Nat) * 10 ^ k| ≤ |amount m - j * 10 ^ k|) := by
  have hten : (0 : ℚ) < 10 ^ k := zpow_pos (by norm_num) _
  have hself := rounds_amount m
  simp only [abs_sub_grid hamount]
  rcases Nat.lt_or_ge low j with hlt | hle
  · have hcast : ((low + 1 : Nat) : ℚ) ≤ j := by exact_mod_cast hlt
    refine .inr ⟨hself.between hj ?_ ?_, ?_⟩
    · rw [hamount]
      gcongr
      push_cast
      linarith
    · gcongr
    · apply mul_le_mul_of_nonneg_right _ hten.le
      push_cast at hcast ⊢
      rw [abs_of_nonpos (by linarith), abs_of_nonpos (by linarith)]
      linarith
  · have hcast : (j : ℚ) ≤ low := by exact_mod_cast hle
    refine .inl ⟨hj.between hself ?_ ?_, ?_⟩
    · gcongr
    · rw [hamount]
      gcongr
      linarith
    · apply mul_le_mul_of_nonneg_right _ hten.le
      rw [abs_of_nonneg (by linarith), abs_of_nonneg (by linarith)]
      linarith

/-- Of the two neighbours one is taken that is read as the magnitude, the closer one if both are. -/
theorem onGrid?_neighbours (tie : Tie) (hm : m < infinity) (k : Int) :
    ∃ (low : Nat) (f : ℚ), 0 ≤ f ∧ f < 1 ∧ amount m = (low + f) * 10 ^ k ∧
      ((onGrid? tie m k = none ∧ ¬ Rounds (low * 10 ^ k) m ∧ ¬ Rounds ((low + 1 : Nat) * 10 ^ k) m) ∨
        (onGrid? tie m k = some low ∧ Rounds (low * 10 ^ k) m ∧
          (Rounds ((low + 1 : Nat) * 10 ^ k) m → 2 * f ≤ 1)) ∨
        (onGrid? tie m k = some (low + 1) ∧ Rounds ((low + 1 : Nat) * 10 ^ k) m ∧
          (Rounds (low * 10 ^ k) m → 1 ≤ 2 * f))) := by
  obtain ⟨f, hf, hf1, hamount, hless, hmore⟩ := exists_fraction m k rfl rfl
  refine ⟨_, f, hf, hf1, hamount, ?_⟩
  unfold onGrid?
  dsimp only
  generalize units m * Nat.pow 10 (-k).toNat / (one * Nat.pow 10 k.toNat) = low at *
  generalize units m * Nat.pow 10 (-k).toNat % (one * Nat.pow 10 k.toNat) = rest at *
  generalize one * Nat.pow 10 k.toNat = den at *
  simp only [← nearestDecimal_eq_iff hm, ← beq_iff_eq (b := m)]
  cases nearestDecimal low k == m <;> cases nearestDecimal (low + 1) k == m
  · simp
  · simp
  · simp
  · rcases lt_trichotomy (2 * f) 1 with hlt | heq | hgt
    · rw [if_pos (hless.2 hlt)]
      simp [hlt.le]
    · have hl := mt hless.1 heq.not_lt
      have hh := mt hmore.1 heq.not_gt
      rw [if_neg hl, if_neg hh]
      cases tie with
      | up => simp [heq.ge]
      | toEven =>
        rcases Nat.mod_two_eq_zero_or_one low with heven | hodd
        · simp [heven, heq.le]
        · simp [hodd, heq.ge]
    · rw [if_neg (mt hless.1 hgt.not_gt), if_pos (hmore.2 hgt)]
      simp [hgt.le]

/-- The multiple that is taken of a grid is read as the magnitude, and none that is read so is closer to
it. -/
theorem onGrid?_eq_some (hm : m < infinity) {n : Nat} (h : onGrid? tie m k = some n) :
    Rounds (n * 10 ^ k) m ∧
      ∀ j : Nat, Rounds (j * 10 ^ k) m → |amount m - n * 10 ^ k| ≤ |amount m - j * 10 ^ k| := by
  have hten : (0 : ℚ) < 10 ^ k := zpow_pos (by norm_num) _
  obtain ⟨low, f, hf, hf1, hamount, ⟨hnone, -⟩ | ⟨hsome, hrounds, hcloser⟩ |
    ⟨hsome, hrounds, hcloser⟩⟩ := onGrid?_neighbours tie hm k
  · rw [h] at hnone
    cases hnone
  · obtain rfl : n = low := Option.some.inj (h.symm.trans hsome)
    refine ⟨hrounds, fun j hj => ?_⟩
    rcases exists_neighbour hf hf1 hamount hj with ⟨-, hle⟩ | ⟨hother, hle⟩
    · exact hle
    · refine le_trans ?_ hle
      have hhalf := hcloser hother
      rw [abs_sub_grid hamount, abs_sub_grid hamount]
      apply mul_le_mul_of_nonneg_right _ hten.le
      push_cast
      rw [abs_of_nonneg (by linarith), abs_of_nonpos (by linarith)]
      linarith
  · obtain rfl : n = low + 1 := Option.some.inj (h.symm.trans hsome)
    refine ⟨hrounds, fun j hj => ?_⟩
    rcases exists_neighbour hf hf1 hamount hj with ⟨hother, hle⟩ | ⟨-, hle⟩
    · refine le_trans ?_ hle
      have hhalf := hcloser hother
      rw [abs_sub_grid hamount, abs_sub_grid hamount]
      apply mul_le_mul_of_nonneg_right _ hten.le
      push_cast
      rw [abs_of_nonpos (by linarith), abs_of_nonneg (by linarith)]
      linarith
    · exact hle

/-- A grid of which nothing is taken has no multiple that is read as the magnitude. -/
theorem onGrid?_eq_none (hm : m < infinity) (h : onGrid? tie m k = none) (j : Nat) :
    ¬ Rounds (j * 10 ^ k) m := by
  intro hj
  obtain ⟨low, f, hf, hf1, hamount, ⟨-, hlow, hhigh⟩ | ⟨hsome, -⟩ | ⟨hsome, -⟩⟩ :=
    onGrid?_neighbours tie hm k
  · rcases exists_neighbour hf hf1 hamount hj with ⟨hrounds, -⟩ | ⟨hrounds, -⟩
    · exact hlow hrounds
    · exact hhigh hrounds
  · rw [h] at hsome
    cases hsome
  · rw [h] at hsome
    cases hsome

/-! ### The search -/

/-- The grids that are tried, for a number whose leading digit is at `leading`: one for each count of
digits up to seventeen. -/
theorem mem_grids_iff {leading : Int} :
    k ∈ (List.range' 1 17).map (fun (count : Nat) => leading - count + 1) ↔
      leading - 17 < k ∧ k ≤ leading := by
  simp only [List.mem_map, List.mem_range'_1]
  constructor
  · rintro ⟨count, hcount, rfl⟩
    omega
  · intro hk
    exact ⟨(leading + 1 - k).toNat, by omega, by omega⟩

theorem grids_descending (leading : Int) :
    ((List.range' 1 17).map fun (count : Nat) => leading - count + 1).Pairwise (· > ·) := by
  rw [List.pairwise_map]
  refine (List.pairwise_lt_range' 1 Nat.one_pos).imp fun {a b} hlt => ?_
  omega

/-- What is found first in a descending list is found for the greatest member possible. -/
theorem exists_of_findSome?_descending {α : Type} {f : Int → Option α} {grids : List Int} {a : α}
    (hdescending : grids.Pairwise (· > ·)) (h : grids.findSome? f = some a) :
    ∃ k ∈ grids, f k = some a ∧ ∀ k' ∈ grids, k < k' → f k' = none := by
  induction grids with
  | nil => cases h
  | cons first rest ih =>
    obtain ⟨hfirst, hrest⟩ := List.pairwise_cons.1 hdescending
    rw [List.findSome?_cons] at h
    cases hf : f first with
    | some b =>
      rw [hf] at h
      refine ⟨first, List.mem_cons_self, hf.trans h, fun k' hk' hlt => ?_⟩
      rcases List.mem_cons.1 hk' with rfl | hk'
      · exact absurd hlt (lt_irrefl _)
      · exact absurd hlt (hfirst k' hk').not_gt
    | none =>
      rw [hf] at h
      obtain ⟨k, hk, hfound, hnone⟩ := ih hrest h
      exact ⟨k, List.mem_cons_of_mem _ hk, hfound, List.forall_mem_cons.2 ⟨fun _ => hf, hnone⟩⟩

/-- The digits are those of the coarsest grid of which a multiple is taken, if there is one among
seventeen. -/
theorem shortest_cases (tie : Tie) (m : Nat) :
    (∃ n k, shortest tie m = scientific n k ∧ onGrid? tie m k = some n ∧
      ∀ k', k < k' → k' ≤ leadingExponent (units m) one → onGrid? tie m k' = none) ∨
    shortest tie m = ⟨[], 0⟩ ∧ ∀ k, leadingExponent (units m) one - 17 < k →
      k ≤ leadingExponent (units m) one → onGrid? tie m k = none := by
  unfold shortest
  dsimp only
  split
  · next s hfound =>
    obtain ⟨k, hk, htaken, hnone⟩ := exists_of_findSome?_descending (grids_descending _) hfound
    obtain ⟨n, hn, rfl⟩ := Option.map_eq_some_iff.1 htaken
    refine .inl ⟨n, k, rfl, hn, fun k' hlt hle => Option.map_eq_none_iff.1 (hnone k' ?_ hlt)⟩
    have hbound := mem_grids_iff.1 hk
    exact mem_grids_iff.2 ⟨by omega, hle⟩
  · next hnone =>
    refine .inr ⟨rfl, fun k hlow hhigh => ?_⟩
    have hin := mem_grids_iff.2 ⟨hlow, hhigh⟩
    exact Option.map_eq_none_iff.1 (List.findSome?_eq_none_iff.1 hnone k hin)

theorem leadingExponent_bounds {v : Nat} (hv : amount m = v) (hpos : v ≠ 0) :
    ∃ e : Nat, leadingExponent (units m) one = e ∧ 10 ^ e ≤ v ∧ v < 10 ^ (e + 1) := by
  have hone := cast_one_pos.ne'
  have hunits : units m = v * one := by
    rw [amount, div_eq_iff hone] at hv
    exact_mod_cast hv
  have hlength : 0 < (Decimal.digits v).length := List.length_pos_of_ne_nil (Decimal.digits_ne_nil v)
  obtain ⟨e, he⟩ : ∃ e, (Decimal.digits v).length = e + 1 := ⟨_, (Nat.succ_pred_eq_of_pos hlength).symm⟩
  have hupper := Decimal.lt_pow_length_digits v
  have hlower := Decimal.pow_length_digits_le hpos
  rw [he] at hupper hlower
  refine ⟨e, ?_, ?_, hupper⟩
  · rw [leadingExponent, if_pos (by rw [hunits]; exact Nat.le_mul_of_pos_left _ (by omega)), hunits,
      Nat.mul_div_cancel _ one_pos, he]
    omega
  · rw [Nat.pow_succ] at hlower
    omega

/-! ### Whole numbers -/

/-- The whole number is read as the magnitude, is as round as any number that is read so, and none that
is as round and read so is closer. -/
structure IsShortest (m n : Nat) : Prop where
  rounds : Rounds n m
  roundest : ∀ j k : Nat, Rounds (j * 10 ^ k : Nat) m → 10 ^ k ∣ n
  closest : ∀ j : Nat, Rounds j m → (∀ i k : Nat, Rounds (i * 10 ^ k : Nat) m → 10 ^ k ∣ j) →
    |amount m - n| ≤ |amount m - j|

/-- A power of ten that 64 bits have room for is the number of a magnitude. -/
theorem exists_amount_pow_ten {e : Nat} (he : e ≤ 19) : ∃ p, amount p = (10 ^ e : Nat) := by
  have hfive : 5 ^ e ≤ 2 * fractionSize :=
    (Nat.pow_le_pow_right (by decide) he).trans (by decide)
  obtain ⟨p, hp⟩ := exists_amount_eq hfive e
  refine ⟨p, hp.trans ?_⟩
  push_cast
  rw [← mul_pow]
  norm_num

theorem exists_amount_limit : ∃ p, amount p = (2 ^ 63 : Nat) := by
  obtain ⟨p, hp⟩ := exists_amount_eq (c := 1) (by decide) 63
  refine ⟨p, hp.trans ?_⟩
  push_cast
  ring

/-- What is nearest to a number of 64 bits is not greater than these allow. -/
theorem Rounds.amount_le_limit {n : Nat} (h : Rounds n m) (hn : n ≤ 2 ^ 63) :
    amount m ≤ (2 ^ 63 : Nat) := by
  obtain ⟨p, hp⟩ := exists_amount_limit
  rw [← hp]
  apply h.amount_le
  rw [hp]
  exact_mod_cast hn

theorem Rounds.le_limit {n v : Nat} (h : Rounds n m) (hv : amount m = v) (hlt : v < 2 ^ 63) :
    n ≤ 2 ^ 63 := by
  by_contra hlarge
  obtain ⟨p, hp⟩ := exists_amount_limit
  have hbeyond : amount p ≤ n := by
    rw [hp]
    exact_mod_cast (Nat.lt_of_not_le hlarge).le
  have hamount := h.le_amount hbeyond
  rw [hp, hv] at hamount
  have : 2 ^ 63 ≤ v := by exact_mod_cast hamount
  omega

theorem not_rounds_zero (hpos : m ≠ 0) : ¬ Rounds (0 : Nat) m := by
  intro h
  rw [Nat.cast_zero, ← amount_zero] at h
  exact hpos (h.unique (rounds_amount 0))

theorem rounds_of_amount_eq {v : Nat} (hv : amount m = v) : Rounds v m := by
  rw [← hv]
  exact rounds_amount m

theorem ne_zero_of_amount_eq (hpos : m ≠ 0) {v : Nat} (hv : amount m = v) : v ≠ 0 := by
  rintro rfl
  exact not_rounds_zero hpos (rounds_of_amount_eq hv)

/-- No number with more digits than the whole number of the magnitude is read as it, if that has no more
than 64 bits: the power of ten between them would be read so too, and it is the number of another
magnitude. -/
theorem Rounds.lt_pow_ten {n v e : Nat} (h : Rounds n m) (hv : amount m = v) (hlimit : v ≤ 2 ^ 63)
    (hlower : 10 ^ e ≤ v) (hupper : v < 10 ^ (e + 1)) : n < 10 ^ (e + 1) := by
  by_contra hgreater
  have he : e ≤ 18 := by
    by_contra hlarge
    have hpow : 10 ^ 19 ≤ 10 ^ e := Nat.pow_le_pow_right (by decide) (by omega)
    omega
  have hten : Rounds (10 ^ (e + 1) : Nat) m := by
    refine (rounds_of_amount_eq hv).between h (by exact_mod_cast hupper.le) ?_
    exact_mod_cast Nat.le_of_not_lt hgreater
  have hsame := hten.amount_eq (exists_amount_pow_ten (by omega))
  rw [hv] at hsame
  have : v = 10 ^ (e + 1) := by exact_mod_cast hsame
  omega

/-- A whole number is on the grid of the whole numbers, which is tried before a finer one. -/
theorem nonneg_of_coarsest (hm : m < infinity) {n e : Nat} (h : Rounds n m)
    (hcoarsest : ∀ k', k < k' → k' ≤ (e : Int) → onGrid? tie m k' = none) : 0 ≤ k := by
  by_contra hneg
  refine onGrid?_eq_none hm (hcoarsest 0 (by omega) (by omega)) n ?_
  simpa using h

/-- What is taken of the coarsest grid, if it is a whole number of 64 bits, is the shortest one. -/
theorem IsShortest.of_onGrid? (hm : m < infinity) (hpos : m ≠ 0) {n taken : Nat}
    (htaken : onGrid? tie m k = some taken) (hn : (n : ℚ) = taken * 10 ^ k) (hbound : n ≤ 2 ^ 63)
    (hcoarsest : ∀ k', k < k' → k' ≤ leadingExponent (units m) one → onGrid? tie m k' = none) :
    IsShortest m n := by
  obtain ⟨hrounds, hclosest⟩ := onGrid?_eq_some hm htaken
  rw [← hn] at hrounds hclosest
  obtain ⟨v, hv⟩ := hrounds.whole
  obtain ⟨e, he, hlower, hupper⟩ := leadingExponent_bounds hv (ne_zero_of_amount_eq hpos hv)
  have hlimit := hrounds.amount_le_limit hbound
  rw [hv] at hlimit
  rw [he] at hcoarsest
  obtain ⟨k, rfl⟩ := Int.eq_ofNat_of_zero_le (nonneg_of_coarsest hm hrounds hcoarsest)
  rw [zpow_natCast] at hn
  obtain rfl : n = taken * 10 ^ k := by exact_mod_cast hn
  constructor
  · exact hrounds
  · intro j k' hj
    rcases Nat.lt_or_ge k k' with hlt | hle
    · -- Nothing was taken of this grid, so it is too coarse for any number but zero.
      exfalso
      have hbeyond : e < k' := by
        by_contra hwithin
        refine onGrid?_eq_none hm (hcoarsest k' (by omega) (by omega)) j ?_
        rw [zpow_natCast]
        exact_mod_cast hj
      have hless := hj.lt_pow_ten hv (by exact_mod_cast hlimit) hlower hupper
      have hpow : 10 ^ (e + 1) ≤ 10 ^ k' := Nat.pow_le_pow_right (by decide) hbeyond
      obtain rfl : j = 0 := by
        by_contra hj0
        have := Nat.le_mul_of_pos_left (10 ^ k') (Nat.pos_of_ne_zero hj0)
        omega
      rw [Nat.zero_mul] at hj
      exact not_rounds_zero hpos hj
    · exact (pow_dvd_pow 10 hle).trans (Dvd.intro_left taken rfl)
  · intro j hj hround
    obtain ⟨i, rfl⟩ := hround taken k hrounds
    have hsame : ((10 ^ k * i : Nat) : ℚ) = i * 10 ^ (k : Int) := by
      rw [zpow_natCast]
      push_cast
      ring
    rw [hsame] at hj ⊢
    exact hclosest i hj

/-- Up to 2⁵⁴ no rounder number than that of the magnitude is read as the magnitude: a multiple of ten is
even, and the even numbers are magnitudes there. -/
theorem pow_ten_dvd_of_rounds {v : Nat} (hv : amount m = v) (hle : v ≤ 2 ^ 54) {i e : Nat}
    (h : Rounds (i * 10 ^ e : Nat) m) : 10 ^ e ∣ v := by
  rcases Nat.eq_zero_or_pos e with rfl | hpos
  · exact one_dvd v
  obtain ⟨half, hhalf⟩ : ∃ half, i * 10 ^ e = 5 * half * 2 := by
    obtain ⟨e, rfl⟩ : ∃ e', e = e' + 1 := ⟨e - 1, by omega⟩
    exact ⟨i * 10 ^ e, by ring⟩
  rcases Nat.le_or_ge (5 * half) (2 * fractionSize) with hsmall | hlarge
  · have hexact : ∃ p, amount p = (i * 10 ^ e : Nat) := by
      obtain ⟨p, hp⟩ := exists_amount_eq hsmall 1
      refine ⟨p, hp.trans ?_⟩
      rw [hhalf]
      push_cast
      ring
    have hsame := h.amount_eq hexact
    rw [hv] at hsame
    obtain rfl : v = i * 10 ^ e := by exact_mod_cast hsame
    exact Nat.dvd_mul_left _ _
  · -- The next multiple of ten is closer to a greater magnitude.
    exfalso
    obtain ⟨p, hp⟩ := exists_amount_eq (c := fractionSize + 1) (by decide) 2
    have hbeyond : amount p ≤ (i * 10 ^ e : Nat) := by
      rw [hp, hhalf]
      unfold fractionSize at *
      exact_mod_cast (show (0x10000000000000 + 1) * 2 ^ 2 ≤ 5 * half * 2 by omega)
    have hamount := h.le_amount hbeyond
    rw [hp, hv] at hamount
    have : (fractionSize + 1) * 2 ^ 2 ≤ v := by exact_mod_cast hamount
    unfold fractionSize at this
    omega

/-- Up to 2⁵⁴ the shortest number is that of the magnitude. -/
theorem IsShortest.eq_of_le {n v : Nat} (h : IsShortest m n) (hv : amount m = v) (hle : v ≤ 2 ^ 54) :
    n = v := by
  have hclosest := h.closest v (rounds_of_amount_eq hv) fun i k => pow_ten_dvd_of_rounds hv hle
  rw [hv, sub_self, abs_zero, abs_nonpos_iff, sub_eq_zero] at hclosest
  exact_mod_cast hclosest.symm

/-- The digits of a whole number up to 2⁵⁴ are found on a grid of whole numbers, and denote it. -/
theorem exists_shortest_eq (tie : Tie) (hm : m < infinity) (hpos : m ≠ 0) {v : Nat}
    (hv : amount m = v) (hle : v ≤ 2 ^ 54) :
    ∃ (n : Nat) (k : Nat), shortest tie m = scientific n k ∧ n * 10 ^ k = v := by
  have hself := rounds_of_amount_eq hv
  obtain ⟨e, he, hlower, -⟩ := leadingExponent_bounds hv (ne_zero_of_amount_eq hpos hv)
  rcases shortest_cases tie m with ⟨n, k, hs, htaken, hcoarsest⟩ | ⟨-, hnone⟩
  · have hk : 0 ≤ k := nonneg_of_coarsest hm hself (he ▸ hcoarsest)
    obtain ⟨k, rfl⟩ := Int.eq_ofNat_of_zero_le hk
    refine ⟨n, k, hs, ?_⟩
    have hcast : ((n * 10 ^ k : Nat) : ℚ) = n * 10 ^ (k : Int) := by
      rw [zpow_natCast]
      push_cast
      rfl
    have hrounds := (onGrid?_eq_some hm htaken).1
    rw [← hcast] at hrounds
    have hbound := hrounds.le_limit hv (hle.trans_lt (by decide))
    exact (IsShortest.of_onGrid? hm hpos htaken hcast hbound hcoarsest).eq_of_le hv hle
  · exfalso
    have hfew : e ≤ 16 := by
      by_contra hmany
      have hpow : 10 ^ 17 ≤ 10 ^ e := Nat.pow_le_pow_right (by decide) (by omega)
      omega
    rw [he] at hnone
    refine onGrid?_eq_none hm (hnone 0 (by omega) (by omega)) v ?_
    simpa using hself

end ColumnConnector.Binary64
