import ColumnConnector.Numeral.Binary64
import Mathlib.Algebra.Order.Field.Rat
import Mathlib.Algebra.Order.Group.Abs
import Mathlib.Tactic.FieldSimp
import Mathlib.Tactic.Linarith
import Mathlib.Tactic.Positivity
import Mathlib.Tactic.Ring

/-!
# Rounding to the nearest magnitude

The magnitudes stand for ascending numbers (`units_strictMono`), so the one nearest to a quotient is
found between two neighbours.  `Rounds` says what it is to be nearest, a tie going to the even one of
two: nothing is said there about exponents, shifts or remainders.  At most one magnitude is nearest
(`Rounds.unique`), the numbers that have it as nearest lie together (`Rounds.between`), and it is the
one that is computed (`nearest_eq_iff`).

The numbers of the magnitudes go on above the greatest finite one.  What is nearest to one of those is
not finite, which is how too great a number is told.
-/

namespace ColumnConnector.Binary64

/-! ### The numbers of the magnitudes -/

/-- A magnitude is a shift and a coefficient, which is at least half of its bound unless nothing is
shifted. -/
theorem exists_parts (m : Nat) : ∃ shift c, m = shift * fractionSize + c ∧ c < 2 * fractionSize ∧
    (fractionSize ≤ c ∨ shift = 0) := by
  unfold fractionSize
  by_cases h : m / 0x10000000000000 = 0
  · exact ⟨0, m, by omega, by omega, .inr rfl⟩
  · exact ⟨m / 0x10000000000000 - 1, m % 0x10000000000000 + 0x10000000000000, by omega, by omega,
      .inl (by omega)⟩

/-- The coefficient counts as many units as the shift says.  One that has reached its bound is the
least coefficient of the next shift. -/
theorem units_parts {shift c : Nat} (hc : c ≤ 2 * fractionSize)
    (h : fractionSize ≤ c ∨ shift = 0) : units (shift * fractionSize + c) = c * 2 ^ shift := by
  unfold units
  unfold fractionSize at *
  dsimp only
  rcases Nat.lt_or_ge c 0x10000000000000 with hsmall | hlarge
  · obtain rfl : shift = 0 := h.resolve_left (by omega)
    rw [if_pos (by omega)]
    omega
  · rcases Nat.lt_or_eq_of_le hc with hlt | rfl
    · rw [if_neg (by omega),
        show (shift * 0x10000000000000 + c) / 0x10000000000000 - 1 = shift by omega,
        show 0x10000000000000 + (shift * 0x10000000000000 + c) % 0x10000000000000 = c by omega]
      rfl
    · rw [if_neg (by omega), show (shift * 0x10000000000000 + 2 * 0x10000000000000) /
          0x10000000000000 - 1 = shift + 1 by omega,
        show 0x10000000000000 + (shift * 0x10000000000000 + 2 * 0x10000000000000) %
          0x10000000000000 = 0x10000000000000 by omega, Nat.pow_eq, Nat.pow_succ]
      ring

theorem units_strictMono : StrictMono units := by
  apply strictMono_nat_of_lt_succ
  intro m
  obtain ⟨shift, c, rfl, hc, h⟩ := exists_parts m
  rw [Nat.add_assoc, units_parts (by omega) h, units_parts (by omega) (by omega)]
  exact Nat.mul_lt_mul_of_pos_right (by omega) (Nat.two_pow_pos shift)

theorem one_pos : 0 < one := by
  decide +kernel

theorem cast_one_pos : (0 : ℚ) < one := by
  exact_mod_cast one_pos

/-- The number that a magnitude stands for. -/
def amount (m : Nat) : ℚ := units m / one

theorem amount_strictMono : StrictMono amount := by
  intro m n h
  have hunits : (units m : ℚ) < units n := by exact_mod_cast units_strictMono h
  exact div_lt_div_of_pos_right hunits cast_one_pos

theorem amount_nonneg (m : Nat) : 0 ≤ amount m := div_nonneg (Nat.cast_nonneg _) (Nat.cast_nonneg _)

/-! ### The nearest magnitude -/

/-- The number is no nearer to the other magnitude than to this one, which is even if it is as near. -/
def AsNear (q : ℚ) (m other : Nat) : Prop := |q - amount m| ≤ |q - amount other| ∧
  (|q - amount m| = |q - amount other| → other = m ∨ m % 2 = 0)

/-- The magnitude is the nearest one, and the even one if there are two. -/
def Rounds (q : ℚ) (m : Nat) : Prop := ∀ other, AsNear q m other

theorem abs_sub_le_iff_of_lt {q a b : ℚ} (h : a < b) : |q - a| ≤ |q - b| ↔ 2 * q ≤ a + b := by
  rw [← sq_le_sq, ← sub_nonneg]
  have hfactor : (q - b) ^ 2 - (q - a) ^ 2 = (b - a) * (a + b - 2 * q) := by ring
  rw [hfactor, mul_nonneg_iff_of_pos_left (sub_pos.2 h), sub_nonneg]

theorem abs_sub_le_iff_of_gt {q a b : ℚ} (h : a < b) : |q - b| ≤ |q - a| ↔ a + b ≤ 2 * q := by
  rw [← sq_le_sq, ← sub_nonneg]
  have hfactor : (q - a) ^ 2 - (q - b) ^ 2 = (b - a) * (2 * q - (a + b)) := by ring
  rw [hfactor, mul_nonneg_iff_of_pos_left (sub_pos.2 h), sub_nonneg]

theorem asNear_iff_of_lt {q : ℚ} {m other : Nat} (h : m < other) : AsNear q m other ↔
    2 * q ≤ amount m + amount other ∧ (2 * q = amount m + amount other → m % 2 = 0) := by
  have hamount := amount_strictMono h
  rw [AsNear, le_antisymm_iff, abs_sub_le_iff_of_lt hamount, abs_sub_le_iff_of_gt hamount,
    ← le_antisymm_iff, or_iff_right (by omega)]

theorem asNear_iff_of_gt {q : ℚ} {m other : Nat} (h : other < m) : AsNear q m other ↔
    amount other + amount m ≤ 2 * q ∧ (2 * q = amount other + amount m → m % 2 = 0) := by
  have hamount := amount_strictMono h
  rw [AsNear, le_antisymm_iff, abs_sub_le_iff_of_lt hamount, abs_sub_le_iff_of_gt hamount,
    ← le_antisymm_iff, or_iff_right (by omega), eq_comm (b := 2 * q)]

/-- The neighbours are enough. -/
theorem rounds_of_neighbours {q : ℚ} {m : Nat} (habove : AsNear q m (m + 1))
    (hbelow : ∀ p, p + 1 = m → AsNear q m p) : Rounds q m := by
  intro other
  rcases Nat.lt_trichotomy m other with hlt | rfl | hgt
  · obtain ⟨hle, heven⟩ := (asNear_iff_of_lt (Nat.lt_succ_self m)).1 habove
    have hamount := amount_strictMono.monotone (show m + 1 ≤ other from hlt)
    exact (asNear_iff_of_lt hlt).2 ⟨by linarith, fun htie => heven (by linarith)⟩
  · exact ⟨le_rfl, fun _ => .inl rfl⟩
  · obtain ⟨p, rfl⟩ : ∃ p, p + 1 = m := ⟨m - 1, by omega⟩
    obtain ⟨hle, heven⟩ := (asNear_iff_of_gt (Nat.lt_succ_self p)).1 (hbelow p rfl)
    have hamount := amount_strictMono.monotone (show other ≤ p by omega)
    exact (asNear_iff_of_gt hgt).2 ⟨by linarith, fun htie => heven (by linarith)⟩

theorem rounds_amount (m : Nat) : Rounds (amount m) m := by
  intro other
  rw [AsNear, sub_self, abs_zero]
  refine ⟨abs_nonneg _, fun h => .inl ?_⟩
  have hzero := abs_eq_zero.1 h.symm
  exact amount_strictMono.injective (by linarith)

/-- What lies between two numbers with the same nearest magnitude has it too. -/
theorem Rounds.between {p q r : ℚ} {m : Nat} (hp : Rounds p m) (hr : Rounds r m) (hpq : p ≤ q)
    (hqr : q ≤ r) : Rounds q m := by
  intro other
  rcases Nat.lt_trichotomy m other with hlt | rfl | hgt
  · obtain ⟨hle, heven⟩ := (asNear_iff_of_lt hlt).1 (hr other)
    exact (asNear_iff_of_lt hlt).2 ⟨by linarith, fun htie => heven (by linarith)⟩
  · exact ⟨le_rfl, fun _ => .inl rfl⟩
  · obtain ⟨hle, heven⟩ := (asNear_iff_of_gt hgt).1 (hp other)
    exact (asNear_iff_of_gt hgt).2 ⟨by linarith, fun htie => heven (by linarith)⟩

/-- Of two magnitudes the lesser one is not nearest to a number if the greater one is: they would both
be even, and what stands between them would be nearer. -/
theorem Rounds.not_of_lt {q : ℚ} {m n : Nat} (hm : Rounds q m) (hlt : m < n) : ¬ Rounds q n := by
  intro hn
  obtain ⟨hle, heven⟩ := (asNear_iff_of_lt hlt).1 (hm n)
  obtain ⟨hge, heven'⟩ := (asNear_iff_of_gt hlt).1 (hn m)
  have htie : 2 * q = amount m + amount n := le_antisymm hle hge
  have hm2 := heven htie
  have hn2 := heven' htie
  have hnext := ((asNear_iff_of_lt (Nat.lt_succ_self m)).1 (hm (m + 1))).1
  have hamount := amount_strictMono (show m + 1 < n by omega)
  linarith

theorem Rounds.unique {q : ℚ} {m n : Nat} (hm : Rounds q m) (hn : Rounds q n) : m = n := by
  rcases Nat.lt_trichotomy m n with hlt | heq | hgt
  · exact absurd hn (hm.not_of_lt hlt)
  · exact heq
  · exact absurd hm (hn.not_of_lt hgt)

/-! ### The computed magnitude -/

theorem roundHalfEven_eq_or (num den : Nat) :
    roundHalfEven num den = num / den ∨ roundHalfEven num den = num / den + 1 := by
  unfold roundHalfEven
  dsimp only
  split
  · exact .inl rfl
  · split
    · rcases Nat.mod_two_eq_zero_or_one (num / den) with h | h <;> simp [h]
    · exact .inr rfl

/-- Rounding to a whole number takes the nearest, and of two equally near ones the even one. -/
theorem roundHalfEven_spec (num : Nat) {den : Nat} (hden : 0 < den) :
    2 * num ≤ (2 * roundHalfEven num den + 1) * den ∧
      2 * roundHalfEven num den * den ≤ 2 * num + den ∧
      (roundHalfEven num den % 2 = 0 ∨ 2 * num < (2 * roundHalfEven num den + 1) * den ∧
        2 * roundHalfEven num den * den < 2 * num + den) := by
  have hsplit := Nat.div_add_mod' num den
  have hrest := Nat.mod_lt num hden
  unfold roundHalfEven
  dsimp only
  generalize num / den = whole at *
  generalize num % den = rest at *
  have hexpand : ∀ r, (2 * r + 1) * den = 2 * (r * den) + den ∧ 2 * r * den = 2 * (r * den) :=
    fun r => ⟨by ring, by ring⟩
  have hnext : (whole + 1) * den = whole * den + den := by ring
  simp only [hexpand]
  rcases Nat.lt_trichotomy (2 * rest) den with hlt | heq | hgt
  · rw [if_pos hlt]
    omega
  · rw [if_neg (by omega), if_pos heq]
    rcases Nat.mod_two_eq_zero_or_one whole with heven | hodd
    · rw [heven, Nat.add_zero]
      omega
    · rw [hodd, hnext]
      omega
  · rw [if_neg (by omega), if_neg (by omega), hnext]
    omega

/-- The shift leaves a coefficient that has all its bits, unless there is nothing to shift. -/
theorem div_shift_bounds (n : Nat) :
    n / 2 ^ (Nat.log2 n - 52) < 2 * fractionSize ∧
      (fractionSize ≤ n / 2 ^ (Nat.log2 n - 52) ∨ Nat.log2 n - 52 = 0) := by
  have hsize : fractionSize = 2 ^ 52 := rfl
  have hpos : 0 < 2 ^ (Nat.log2 n - 52) := Nat.two_pow_pos _
  refine ⟨?_, ?_⟩
  · rw [Nat.div_lt_iff_lt_mul hpos, hsize]
    calc n < 2 ^ (Nat.log2 n + 1) := Nat.lt_log2_self
      _ ≤ 2 ^ (53 + (Nat.log2 n - 52)) := Nat.pow_le_pow_right (by decide) (by omega)
      _ = 2 * 2 ^ 52 * 2 ^ (Nat.log2 n - 52) := Nat.pow_add 2 53 _
  · rcases Nat.le_total (Nat.log2 n) 52 with hle | hge
    · exact .inr (by omega)
    · have hne : n ≠ 0 := by
        rintro rfl
        exact absurd hge (by decide)
      refine .inl ((Nat.le_div_iff_mul_le hpos).2 ?_)
      calc fractionSize * 2 ^ (Nat.log2 n - 52) = 2 ^ (52 + (Nat.log2 n - 52)) := by
            rw [hsize, Nat.pow_add]
        _ = 2 ^ Nat.log2 n := by rw [Nat.add_sub_cancel' hge]
        _ ≤ n := Nat.log2_self_le hne

theorem amount_add (m n : Nat) : amount m + amount n = (units m + units n) / one := by
  rw [amount, amount, add_div]

/-- The magnitudes around one that is made of a shift and a coefficient: the next one is at least one
step of the shift away, and so is the one before, unless it has a lesser shift. -/
theorem units_succ_parts {shift r : Nat} (hr : r ≤ 2 * fractionSize)
    (hparts : fractionSize ≤ r ∨ shift = 0) :
    (r + 1) * 2 ^ shift ≤ units (shift * fractionSize + r + 1) := by
  rcases Nat.lt_or_eq_of_le hr with hlt | rfl
  · rw [Nat.add_assoc, units_parts (by omega) (by omega)]
  · rw [show shift * fractionSize + 2 * fractionSize + 1 =
        (shift + 1) * fractionSize + (fractionSize + 1) by ring,
      units_parts (by unfold fractionSize; omega) (by omega), Nat.pow_succ]
    calc (2 * fractionSize + 1) * 2 ^ shift ≤ (2 * (fractionSize + 1)) * 2 ^ shift :=
          Nat.mul_le_mul_right _ (by omega)
      _ = (fractionSize + 1) * (2 ^ shift * 2) := by ring

theorem units_pred_parts {shift r p : Nat} (hr : r ≤ 2 * fractionSize)
    (hparts : fractionSize ≤ r ∨ shift = 0) (hp : p + 1 = shift * fractionSize + r) :
    units p + 2 ^ shift = r * 2 ^ shift ∨
      r = fractionSize ∧ shift ≠ 0 ∧ units p < fractionSize * 2 ^ shift := by
  by_cases hleast : r = fractionSize ∧ shift ≠ 0
  · refine .inr ⟨hleast.1, hleast.2, ?_⟩
    rw [← hleast.1, ← units_parts hr hparts, ← hp]
    exact units_strictMono (Nat.lt_succ_self p)
  · left
    obtain ⟨k, rfl⟩ : ∃ k, r = k + 1 := ⟨r - 1, by
      unfold fractionSize at *
      omega⟩
    obtain rfl : p = shift * fractionSize + k := by omega
    rw [units_parts (by omega) (by omega)]
    ring

/-- The shifted quotient, rounded to a whole number, makes the nearest magnitude. -/
theorem rounds_shifted {shift r : Nat} {n : ℚ} (hr : r ≤ 2 * fractionSize)
    (hparts : fractionSize ≤ r ∨ shift = 0)
    (hleast : shift ≠ 0 → (fractionSize * 2 ^ shift : ℚ) ≤ n)
    (habove : 2 * n ≤ (2 * r + 1) * 2 ^ shift) (hbelow : 2 * r * 2 ^ shift ≤ 2 * n + 2 ^ shift)
    (heven : r % 2 = 0 ∨ 2 * n < (2 * r + 1) * 2 ^ shift ∧ 2 * r * 2 ^ shift < 2 * n + 2 ^ shift) :
    Rounds (n / one) (shift * fractionSize + r) := by
  have hone := cast_one_pos
  have hunits : (units (shift * fractionSize + r) : ℚ) = r * 2 ^ shift := by
    rw [units_parts hr hparts]
    push_cast
    rfl
  have hnext : ((r + 1) * 2 ^ shift : ℚ) ≤ units (shift * fractionSize + r + 1) := by
    exact_mod_cast units_succ_parts hr hparts
  have hprev : ∀ p, p + 1 = shift * fractionSize + r →
      (units p + 2 ^ shift : ℚ) = r * 2 ^ shift ∨ r = fractionSize ∧ shift ≠ 0 ∧
        (units p : ℚ) < fractionSize * 2 ^ shift := by
    intro p hp
    exact_mod_cast units_pred_parts hr hparts hp
  have hparity : (shift * fractionSize + r) % 2 = r % 2 := by
    unfold fractionSize
    omega
  apply rounds_of_neighbours
  · rw [asNear_iff_of_lt (Nat.lt_succ_self _), amount_add, ← mul_div_assoc,
      div_le_div_iff_of_pos_right hone, div_left_inj' hone.ne', hunits, hparity]
    refine ⟨by linarith, fun htie => heven.resolve_right fun hstrict => ?_⟩
    linarith [hstrict.1]
  · intro p hp
    rw [asNear_iff_of_gt (by omega), amount_add, ← mul_div_assoc,
      div_le_div_iff_of_pos_right hone, div_left_inj' hone.ne', hunits, hparity]
    rcases hprev p hp with hstep | ⟨rfl, hshift, hlt⟩
    · refine ⟨by linarith, fun htie => heven.resolve_right fun hstrict => ?_⟩
      linarith [hstrict.2]
    · have hfar := hleast hshift
      refine ⟨by linarith, fun htie => ?_⟩
      exfalso
      linarith

/-- What is computed is the nearest magnitude, or infinity instead of a greater one. -/
theorem exists_nearest (num : Nat) {den : Nat} (hden : 0 < den) :
    ∃ m, nearest num den = min infinity m ∧ Rounds (num / den / one) m := by
  refine ⟨_, rfl, ?_⟩
  have hdenq : (0 : ℚ) < den := by exact_mod_cast hden
  obtain ⟨hbound, hparts⟩ := div_shift_bounds (num / den)
  rw [Nat.div_div_eq_div_mul] at hbound hparts
  simp only [Nat.pow_eq]
  generalize Nat.log2 (num / den) - 52 = shift at *
  have hstep : 0 < den * 2 ^ shift := Nat.mul_pos hden (Nat.two_pow_pos _)
  have hwhole := roundHalfEven_eq_or num (den * 2 ^ shift)
  obtain ⟨habove, hbelow, heven⟩ := roundHalfEven_spec num hstep
  generalize roundHalfEven num (den * 2 ^ shift) = r at *
  have hcancel : (num / den * den : ℚ) = num := div_mul_cancel₀ _ hdenq.ne'
  -- The bounds, which compare `num` with multiples of the step, with `den` divided out.
  have hle : ∀ a b : ℚ, a * den ≤ b * den → a ≤ b := fun a b h => le_of_mul_le_mul_right h hdenq
  have hlt : ∀ a b : ℚ, a * den < b * den → a < b :=
    fun a b h => lt_of_mul_lt_mul_right h hdenq.le
  apply rounds_shifted
  · omega
  · omega
  · intro hshift
    have hleast := (Nat.le_div_iff_mul_le hstep).1 (hparts.resolve_right hshift)
    have hcast : (fractionSize * (den * 2 ^ shift) : ℚ) ≤ num := by exact_mod_cast hleast
    apply hle
    linarith
  · have hcast : (2 * num : ℚ) ≤ (2 * r + 1) * (den * 2 ^ shift) := by exact_mod_cast habove
    apply hle
    linarith
  · have hcast : (2 * r * (den * 2 ^ shift) : ℚ) ≤ 2 * num + den * 2 ^ shift := by
      exact_mod_cast hbelow
    apply hle
    linarith
  · refine heven.imp_right fun ⟨hless, hmore⟩ => ⟨?_, ?_⟩
    · have hcast : (2 * num : ℚ) < (2 * r + 1) * (den * 2 ^ shift) := by exact_mod_cast hless
      apply hlt
      linarith
    · have hcast : (2 * r * (den * 2 ^ shift) : ℚ) < 2 * num + den * 2 ^ shift := by
        exact_mod_cast hmore
      apply hlt
      linarith

/-- A finite magnitude is computed exactly from the quotients that it is nearest to. -/
theorem nearest_eq_iff {num den m : Nat} (hden : 0 < den) (hm : m < infinity) :
    nearest num den = m ↔ Rounds (num / den / one) m := by
  obtain ⟨m', hnearest, hrounds⟩ := exists_nearest num hden
  constructor
  · intro h
    have hsame : m' = m := by omega
    rwa [hsame] at hrounds
  · intro h
    rw [hnearest, hrounds.unique h]
    omega

end ColumnConnector.Binary64
