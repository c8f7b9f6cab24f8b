import ColumnConnector.Proofs.Numeral.Shortest

/-!
# Doubles as numbers

A finite double stands for a number, and is the nearest to some others: `IsNearest` compares it with
all finite doubles, of either sign.  `ShortestWhole` says what whole number is written for a double.  Both
go back to magnitudes, by `isNearest_of_rounds` and `rounds_of_isNearest` and by
`IsShortest.shortestWhole`.
-/

namespace ColumnConnector.Binary64

/-- The number that a finite double stands for. -/
def number (x : Binary64) : ℚ := if x.isNegative then -amount x.magnitude else amount x.magnitude

/-- No finite double is nearer to the number, and if one with another number is as near then this one is
even. -/
def IsNearest (x : Binary64) (q : ℚ) : Prop := ∀ y : Binary64, y.isFinite = true →
  |q - x.number| ≤ |q - y.number| ∧
    (|q - x.number| = |q - y.number| → y.number = x.number ∨ x.magnitude % 2 = 0)

/-- The double is read from the whole number, which is as round as one can be for that, and none as round
is closer. -/
structure ShortestWhole (x : Binary64) (n : Int) : Prop where
  nearest : x.IsNearest n
  roundest : ∀ (i : Int) (k : Nat), x.IsNearest (i * 10 ^ k : Int) → 10 ^ k ∣ n
  closest : ∀ j : Int, x.IsNearest j →
    (∀ (i : Int) (k : Nat), x.IsNearest (i * 10 ^ k : Int) → 10 ^ k ∣ j) →
    |x.number - n| ≤ |x.number - j|

/-! ### Signs -/

/-- A number as it is seen from doubles of one sign. -/
def signed (negative : Bool) (q : ℚ) : ℚ := if negative then -q else q

theorem signed_signed (negative : Bool) (q : ℚ) : signed negative (signed negative q) = q := by
  cases negative with
  | false => rfl
  | true => exact neg_neg q

theorem number_eq (x : Binary64) : x.number = signed x.isNegative (amount x.magnitude) := rfl

theorem abs_number (x : Binary64) : |x.number| = amount x.magnitude := by
  have hnonneg := abs_of_nonneg (amount_nonneg x.magnitude)
  unfold number
  split
  · rw [abs_neg, hnonneg]
  · exact hnonneg

theorem abs_signed_sub (negative : Bool) (p q : ℚ) :
    |signed negative p - signed negative q| = |p - q| := by
  cases negative with
  | false => rfl
  | true =>
    show |-p - -q| = |p - q|
    rw [neg_sub_neg, abs_sub_comm]

theorem signed_not (negative : Bool) (q : ℚ) : signed (!negative) q = signed negative (-q) := by
  cases negative with
  | false => rfl
  | true => exact (neg_neg q).symm

theorem magnitude_ofMagnitude {negative : Bool} {m : Nat} (h : m < signWeight) :
    (ofMagnitude negative m).magnitude = m := by
  unfold signWeight at h
  unfold magnitude ofMagnitude signWeight
  cases negative with
  | false =>
    show (UInt64.ofNat m).toNat % _ = m
    rw [UInt64.toNat_ofNat']
    omega
  | true =>
    show (UInt64.ofNat (0x8000000000000000 + m)).toNat % _ = m
    rw [UInt64.toNat_ofNat']
    omega

theorem isNegative_ofMagnitude {negative : Bool} {m : Nat} (h : m < signWeight) :
    (ofMagnitude negative m).isNegative = negative := by
  unfold signWeight at h
  unfold isNegative ofMagnitude signWeight
  cases negative with
  | false =>
    show decide (_ ≤ (UInt64.ofNat m).toNat) = false
    rw [UInt64.toNat_ofNat', decide_eq_false_iff_not]
    omega
  | true =>
    show decide (_ ≤ (UInt64.ofNat (0x8000000000000000 + m)).toNat) = true
    rw [UInt64.toNat_ofNat', decide_eq_true_iff]
    omega

/-- Every finite magnitude comes with either sign. -/
theorem exists_number_eq (negative : Bool) {m : Nat} (h : m < infinity) :
    ∃ y : Binary64, y.isFinite = true ∧ y.number = signed negative (amount m) := by
  have hsign : m < signWeight := h.trans (by decide)
  refine ⟨ofMagnitude negative m, ?_, ?_⟩
  · rw [isFinite, magnitude_ofMagnitude hsign]
    exact decide_eq_true h
  · rw [number_eq, magnitude_ofMagnitude hsign, isNegative_ofMagnitude hsign]

/-! ### Nearest doubles and nearest magnitudes -/

variable {x : Binary64}

/-- A double is nearest to the numbers of its sign that its magnitude is nearest to.  Doubles of the other
sign are farther away than those of the same magnitude. -/
theorem isNearest_of_rounds {q : ℚ} (hq : 0 ≤ q) (h : Rounds q x.magnitude) :
    x.IsNearest (signed x.isNegative q) := by
  intro y _
  obtain ⟨hle, heven⟩ := h y.magnitude
  by_cases hsign : y.isNegative = x.isNegative
  · rw [number_eq, number_eq, hsign, abs_signed_sub, abs_signed_sub]
    exact ⟨hle, fun htie => (heven htie).imp_left fun hsame => by rw [hsame]⟩
  · have hy := amount_nonneg y.magnitude
    have hother : y.isNegative = !x.isNegative := by
      revert hsign
      cases y.isNegative <;> cases x.isNegative <;> simp
    rw [number_eq, number_eq, hother, signed_not, abs_signed_sub, abs_signed_sub, sub_neg_eq_add,
      abs_of_nonneg (add_nonneg hq hy)]
    have hfar : |q - amount y.magnitude| ≤ q + amount y.magnitude :=
      abs_le.2 ⟨by linarith, by linarith⟩
    refine ⟨hle.trans hfar, fun htie => ?_⟩
    have hsame : |q - amount y.magnitude| = q + amount y.magnitude := by linarith
    have hproduct : q * amount y.magnitude = 0 := by
      have hsquare := sq_abs (q - amount y.magnitude)
      rw [hsame] at hsquare
      linarith
    rcases mul_eq_zero.1 hproduct with rfl | hzero
    · rw [← amount_zero] at h
      exact .inr (by rw [h.unique (rounds_amount 0)])
    · refine (heven (htie.trans hsame.symm)).imp_left fun hmagnitude => ?_
      rw [← hmagnitude, hzero, neg_zero]

/-- The other way round the neighbours of the magnitude have to be finite. -/
theorem rounds_of_isNearest {q : ℚ} (hx : x.magnitude + 1 < infinity) (h : x.IsNearest q) :
    Rounds (signed x.isNegative q) x.magnitude := by
  have hdistance : ∀ p, |q - signed x.isNegative p| = |signed x.isNegative q - p| := by
    intro p
    rw [← abs_signed_sub x.isNegative (signed x.isNegative q) p, signed_signed]
  have hnear : ∀ other < infinity, AsNear (signed x.isNegative q) x.magnitude other := by
    intro other hfinite
    obtain ⟨y, hy, hnumber⟩ := exists_number_eq x.isNegative hfinite
    obtain ⟨hle, heven⟩ := h y hy
    rw [hnumber, number_eq, hdistance, hdistance] at hle heven
    refine ⟨hle, fun htie => (heven htie).imp_left fun hsame => ?_⟩
    have hamount := congrArg (signed x.isNegative) hsame
    rw [signed_signed, signed_signed] at hamount
    exact amount_strictMono.injective hamount
  exact rounds_of_neighbours (hnear _ hx) fun p hp => hnear p (by omega)

/-- If a whole number has a double other than zero as nearest, it is of the same sign. -/
theorem rounds_natAbs {j : Int} (hx : x.magnitude + 1 < infinity) (hzero : x.magnitude ≠ 0)
    (h : x.IsNearest j) :
    (j : ℚ) = signed x.isNegative j.natAbs ∧ Rounds j.natAbs x.magnitude := by
  have hrounds := rounds_of_isNearest hx h
  have hnonneg : 0 ≤ signed x.isNegative j := by
    by_contra hneg
    have hmiddle := ((asNear_iff_of_gt (Nat.pos_of_ne_zero hzero)).1 (hrounds 0)).1
    have := amount_nonneg x.magnitude
    rw [amount_zero] at hmiddle
    linarith
  have habs : (j.natAbs : ℚ) = signed x.isNegative j := by
    rw [← abs_of_nonneg hnonneg, Nat.cast_natAbs, Int.cast_abs]
    cases x.isNegative with
    | false => rfl
    | true => exact (abs_neg _).symm
  rw [habs, signed_signed]
  exact ⟨rfl, hrounds⟩

/-! ### Shortest whole numbers -/

/-- A whole number with the sign of a double. -/
def signedInt (negative : Bool) (n : Nat) : Int := if negative then -n else n

theorem cast_signedInt (negative : Bool) (n : Nat) : (signedInt negative n : ℚ) = signed negative n := by
  cases negative <;> simp [signedInt, signed]

theorem pow_dvd_signedInt (negative : Bool) {n k : Nat} (h : 10 ^ k ∣ n) :
    (10 ^ k : Int) ∣ signedInt negative n := by
  have hdvd : (10 ^ k : Int) ∣ n := by exact_mod_cast h
  cases negative with
  | false => exact hdvd
  | true => exact (dvd_neg).2 hdvd

theorem isNearest_signedInt {n : Nat} (h : Rounds n x.magnitude) :
    x.IsNearest (signedInt x.isNegative n) := by
  rw [cast_signedInt]
  exact isNearest_of_rounds (Nat.cast_nonneg n) h

theorem isNearest_number (x : Binary64) : x.IsNearest x.number :=
  isNearest_of_rounds (amount_nonneg _) (rounds_amount _)

theorem limit_lt_units : 2 ^ 63 * one < units (infinity - 1) := by decide +kernel

/-- A magnitude that is nearest to a number of 64 bits is far from infinity. -/
theorem Rounds.succ_lt_infinity {m n : Nat} (h : Rounds n m) (hn : n ≤ 2 ^ 63) :
    m + 1 < infinity := by
  by_contra hlarge
  have hone := cast_one_pos
  have hlast := amount_strictMono.monotone (show infinity - 1 ≤ m by omega)
  have hlimit : ((2 ^ 63 : Nat) : ℚ) < amount (infinity - 1) := by
    rw [amount, lt_div_iff₀ hone]
    exact_mod_cast limit_lt_units
  have hamount := h.amount_le_limit hn
  linarith

theorem IsShortest.eq_zero {n : Nat} (h : IsShortest 0 n) : n = 0 := by
  have hdvd : 10 ^ n ∣ n := by
    apply h.roundest 0 n
    rw [Nat.zero_mul]
    exact rounds_of_amount_eq (amount_zero.trans Nat.cast_zero.symm)
  exact Nat.eq_zero_of_dvd_of_lt hdvd (Nat.lt_pow_self (by decide))

/-- The whole number with the sign of the double is the shortest one. -/
theorem IsShortest.shortestWhole {n : Nat} (h : IsShortest x.magnitude n)
    (hx : x.magnitude + 1 < infinity) : x.ShortestWhole (signedInt x.isNegative n) := by
  by_cases hzero : x.magnitude = 0
  · rw [hzero] at h
    obtain rfl := h.eq_zero
    have hnumber : x.number = 0 := by
      rw [number_eq, hzero, amount_zero]
      cases x.isNegative <;> simp [signed]
    have hself := x.isNearest_number
    rw [hnumber] at hself
    have hint : signedInt x.isNegative 0 = 0 := by cases x.isNegative <;> rfl
    rw [hint]
    refine ⟨by exact_mod_cast hself, fun i k _ => dvd_zero _, fun j _ _ => ?_⟩
    rw [hnumber, Int.cast_zero, sub_self, abs_zero]
    exact abs_nonneg _
  refine ⟨isNearest_signedInt h.rounds, ?_, ?_⟩
  · intro i k hi
    have hrounds := (rounds_natAbs hx hzero hi).2
    rw [Int.natAbs_mul, Int.natAbs_pow] at hrounds
    exact pow_dvd_signedInt _ (h.roundest _ _ hrounds)
  · intro j hj hround
    obtain ⟨hsign, hrounds⟩ := rounds_natAbs hx hzero hj
    rw [cast_signedInt, hsign, number_eq, abs_signed_sub, abs_signed_sub]
    apply h.closest _ hrounds
    intro i k hi
    have hmultiple : signedInt x.isNegative i * 10 ^ k = signedInt x.isNegative (i * 10 ^ k) := by
      cases x.isNegative <;> simp [signedInt]
    have hdvd := hround (signedInt x.isNegative i) k (by
      rw [hmultiple]
      exact isNearest_signedInt hi)
    exact Int.natCast_dvd.1 (by exact_mod_cast hdvd)

namespace ShortestWhole

variable {n : Int}

/-- The shortest number is that of the double if this is as round as what has the double as nearest. -/
theorem eq_iff (h : x.ShortestWhole n) : x.number = n ↔
    ∃ v : Int, x.number = v ∧ ∀ (i : Int) (k : Nat), x.IsNearest (i * 10 ^ k : Int) → 10 ^ k ∣ v := by
  constructor
  · intro hn
    exact ⟨n, hn, h.roundest⟩
  · intro ⟨v, hv, hround⟩
    have hself : x.IsNearest v := hv ▸ x.isNearest_number
    have hclosest := h.closest v hself hround
    rw [hv, sub_self, abs_zero, abs_nonpos_iff, sub_eq_zero] at hclosest
    rw [hv, hclosest]

/-- What has a shortest whole number is whole. -/
theorem whole (h : x.ShortestWhole n) (hx : x.magnitude + 1 < infinity) :
    ∃ v : Nat, amount x.magnitude = v := by
  by_cases hzero : x.magnitude = 0
  · exact ⟨0, by rw [hzero, amount_zero, Nat.cast_zero]⟩
  · exact (rounds_natAbs hx hzero h.nearest).2.whole

/-- The shortest number is that of the double up to 2⁵⁴. -/
theorem eq_of_le (h : x.ShortestWhole n) (hx : x.magnitude + 1 < infinity)
    (hle : |x.number| ≤ 2 ^ 54) : x.number = n := by
  obtain ⟨v, hv⟩ := h.whole hx
  rw [abs_number, hv] at hle
  have hsmall : v ≤ 2 ^ 54 := by exact_mod_cast hle
  rw [h.eq_iff]
  refine ⟨signedInt x.isNegative v, ?_, fun i k hi => pow_dvd_signedInt _ ?_⟩
  · rw [cast_signedInt, number_eq, hv]
  · by_cases hzero : x.magnitude = 0
    · rw [hzero, amount_zero] at hv
      obtain rfl : 0 = v := by exact_mod_cast hv
      exact dvd_zero _
    · have hrounds := (rounds_natAbs hx hzero hi).2
      rw [Int.natAbs_mul, Int.natAbs_pow] at hrounds
      exact pow_ten_dvd_of_rounds hv hsmall hrounds

/-- So it is if the number has no more than 53 bits. -/
theorem eq_of_natAbs_le (h : x.ShortestWhole n) (hx : x.magnitude + 1 < infinity)
    (hle : n.natAbs ≤ 2 * fractionSize) : x.number = n := by
  by_cases hzero : x.magnitude = 0
  · apply h.eq_of_le hx
    rw [abs_number, hzero, amount_zero]
    positivity
  · obtain ⟨hsign, hrounds⟩ := rounds_natAbs hx hzero h.nearest
    have hexact : ∃ p, amount p = n.natAbs := by simpa using exists_amount_eq hle 0
    rw [number_eq, hrounds.amount_eq hexact, ← hsign]

end ShortestWhole

end ColumnConnector.Binary64
