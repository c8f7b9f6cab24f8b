import ColumnConnector.Proofs.Header
import ColumnConnector.Proofs.Outcomes
import ColumnConnector.Proofs.SortedMap

/-!
# Numbers up to the first gap

The entries of a message and the columns of a row model are numbered from one and end at the first
number under which there is nothing.  Every number takes a name of its own, so there are no more of
them in a row than names in the map (`Numbering.le_size_of_names`), and looking at as many numbers
finds the first gap (`Numbering.exists_count`).

A loop that takes one number in each turn, without a bound on the turns, comes to an end for the same
reason, and to what a traversal of the numbers before the gap comes to (`Numbering.turns_iff`).
-/

namespace ColumnConnector.Numbering

open Header

variable {α β ε : Type} {has : Nat → Bool} {n : Nat}

/-! ### The first gap -/

/-- The number `n` is the least, from one on, under which there is nothing. -/
structure FirstGap (has : Nat → Bool) (n : Nat) : Prop where
  one_le : 1 ≤ n
  there : ∀ i, 1 ≤ i → i < n → has i = true
  gap : has n = false

theorem exists_takeWhile_range' (has : Nat → Bool) (start size : Nat) :
    ∃ n, n ≤ size ∧ (List.range' start size).takeWhile has = List.range' start n ∧
      (∀ i, i < n → has (start + i) = true) ∧ (n < size → has (start + n) = false) := by
  induction size generalizing start with
  | zero =>
    refine ⟨0, Nat.le_refl 0, rfl, ?_, ?_⟩
    · intro i hi
      omega
    · intro hn
      omega
  | succ size ih =>
    rw [List.range'_succ, List.takeWhile_cons]
    cases hp : has start with
    | false =>
      refine ⟨0, Nat.zero_le _, rfl, ?_, ?_⟩
      · intro i hi
        omega
      · intro _
        exact hp
    | true =>
      obtain ⟨n, hn, htake, hall, hgap⟩ := ih (start + 1)
      refine ⟨n + 1, by omega, ?_, ?_, ?_⟩
      · rw [if_pos rfl, htake, List.range'_succ]
      · intro i hi
        cases i with
        | zero => exact hp
        | succ i =>
          rw [show start + (i + 1) = start + 1 + i from by omega]
          exact hall i (by omega)
      · intro hlt
        rw [show start + (n + 1) = start + 1 + n from by omega]
        exact hgap (by omega)

/-- Under each number there is a name that no other number has, so there are no more numbers in a row
than names. -/
theorem le_size_of_names {m : SortedMap String α} {names : List String}
    (hplain : ∀ name ∈ names, Plain name)
    (h : ∀ i, 1 ≤ i → i ≤ n → ∃ name ∈ names, (m.get? (numbered name i)).isSome = true) :
    n ≤ m.size := by
  let owns : Nat → String → Prop := fun i key =>
    1 ≤ i ∧ key ∈ m.keys ∧ ∃ name ∈ names, key = numbered name i
  have howns : ∀ i ∈ List.range' 1 n, ∃ key, owns i key := by
    intro i hi
    rw [List.mem_range'_1] at hi
    obtain ⟨name, hname, hthere⟩ := h i hi.1 (by omega)
    obtain ⟨value, hvalue⟩ := Option.isSome_iff_exists.1 hthere
    exact ⟨numbered name i, hi.1, List.mem_map_of_mem (SortedMap.get?_eq_some_iff.1 hvalue), name,
      hname, rfl⟩
  obtain ⟨keys, hkeys⟩ := exists_forall₂ howns
  have hnodup : keys.Nodup := by
    apply pairwise_of_forall₂ hkeys List.nodup_range'
    rintro i j key key' ⟨hi, -, name, hname, rfl⟩ ⟨hj, -, name', hname', rfl⟩ hne heq
    exact hne ((numbered_inj (hplain name hname) (hplain name' hname') hi hj).1 heq).2
  have hsubset : keys ⊆ m.keys := by
    intro key hkey
    obtain ⟨i, -, -, hmem, -⟩ := exists_mem_of_forall₂ hkeys.flip hkey
    exact hmem
  calc n = (List.range' 1 n).length := List.length_range'.symm
    _ = keys.length := hkeys.length_eq
    _ ≤ m.keys.length := hnodup.length_le_of_subset hsubset
    _ = m.size := List.length_map _

/-- Where no more numbers follow each other than are looked at, all those before the gap are found. -/
theorem exists_count {size : Nat} (hsize : ∀ n, (∀ i, 1 ≤ i → i ≤ n → has i = true) → n ≤ size) :
    ∃ n, (List.range' 1 size).takeWhile has = List.range' 1 n ∧
      (∀ i, 1 ≤ i → i ≤ n → has i = true) ∧ has (n + 1) = false := by
  obtain ⟨n, hn, htake, hall, hgap⟩ := exists_takeWhile_range' has 1 size
  have hthere : ∀ i, 1 ≤ i → i ≤ n → has i = true := by
    intro i hi hle
    rw [show i = 1 + (i - 1) from by omega]
    exact hall (i - 1) (by omega)
  refine ⟨n, htake, hthere, ?_⟩
  rcases Nat.lt_or_ge n size with hlt | hge
  · rw [Nat.add_comm]
    exact hgap hlt
  · rw [← Bool.not_eq_true]
    intro hnext
    have hmore : n + 1 ≤ size := by
      apply hsize
      intro i hi hle
      rcases Nat.lt_or_ge n i with hlast | hbefore
      · rw [show i = n + 1 from by omega]
        exact hnext
      · exact hthere i hi hbefore
    omega

namespace FirstGap

variable {i : Nat} (h : FirstGap has n)
include h

theorem lt_of_there (hle : i ≤ n) (hthere : has i = true) : i < n := by
  refine Nat.lt_of_le_of_ne hle ?_
  rintro rfl
  rw [h.gap] at hthere
  cases hthere

theorem eq_of_gap (hi : 1 ≤ i) (hle : i ≤ n) (hgap : has i = false) : i = n := by
  refine Nat.le_antisymm hle (Nat.not_lt.1 fun hlt => ?_)
  rw [h.there i hi hlt] at hgap
  cases hgap

theorem unique {n' : Nat} (h' : FirstGap has n') : n' = n := by
  rcases Nat.le_total n' n with hle | hle
  · exact h.eq_of_gap h'.one_le hle h'.gap
  · exact (h'.eq_of_gap h.one_le hle h.gap).symm

/-- Looking at numbers that are enough finds those before the gap. -/
theorem takeWhile_range' {size : Nat}
    (hsize : ∀ n, (∀ i, 1 ≤ i → i ≤ n → has i = true) → n ≤ size) :
    (List.range' 1 size).takeWhile has = List.range' 1 (n - 1) := by
  obtain ⟨count, htake, hthere, hgap⟩ := exists_count hsize
  have hcount : count + 1 = n :=
    h.unique ⟨by omega, fun i hi hlt => hthere i hi (by omega), hgap⟩
  rw [htake, ← hcount, Nat.add_sub_cancel]

end FirstGap

theorem exists_firstGap {size : Nat}
    (hsize : ∀ n, (∀ i, 1 ≤ i → i ≤ n → has i = true) → n ≤ size) :
    ∃ n, FirstGap has n ∧ n ≤ size + 1 := by
  obtain ⟨n, -, hthere, hgap⟩ := exists_count hsize
  exact ⟨n + 1, ⟨by omega, fun i hi hlt => hthere i hi (by omega), hgap⟩,
    Nat.succ_le_succ (hsize n hthere)⟩

/-! ### Turn by turn -/

section Turns

variable {read : Nat → Except ε α} {add : β → α → β}

/-- With `b` made of what was read under the numbers before `i`, going on from `i` comes to the
outcome. -/
inductive Turns (has : Nat → Bool) (read : Nat → Except ε α) (add : β → α → β) :
    Nat → β → Except ε β → Prop where
  | gap {i : Nat} {b : β} : has i = false → Turns has read add i b (.ok b)
  | fails {i : Nat} {b : β} {e : ε} :
      has i = true → read i = .error e → Turns has read add i b (.error e)
  | next {i : Nat} {b : β} {a : α} {outcome : Except ε β} :
      has i = true → read i = .ok a → Turns has read add (i + 1) (add b a) outcome →
      Turns has read add i b outcome

variable {i : Nat} {b : β} {outcome outcome' : Except ε β}

theorem Turns.unique (h : Turns has read add i b outcome) (h' : Turns has read add i b outcome') :
    outcome = outcome' := by
  induction h with
  | gap hnone =>
    cases h' with
    | gap _ => rfl
    | fails hsome _ | next hsome _ _ => exact absurd (hnone.symm.trans hsome) Bool.false_ne_true
  | fails hsome he =>
    cases h' with
    | gap hnone => exact absurd (hnone.symm.trans hsome) Bool.false_ne_true
    | fails _ he' => rw [Except.error.inj (he.symm.trans he')]
    | next _ ha _ => cases he.symm.trans ha
  | next hsome ha _ ih =>
    cases h' with
    | gap hnone => exact absurd (hnone.symm.trans hsome) Bool.false_ne_true
    | fails _ he => cases ha.symm.trans he
    | next _ ha' hrest =>
      cases Except.ok.inj (ha.symm.trans ha')
      exact ih hrest

/-- The turns from `i` on, when as many numbers follow. -/
theorem turns_range' (count : Nat) (hthere : ∀ j, i ≤ j → j < i + count → has j = true)
    (hgap : has (i + count) = false) (b : β) :
    Turns has read add i b ((fun l => l.foldl add b) <$> (List.range' i count).mapM read) := by
  induction count generalizing i b with
  | zero => exact .gap hgap
  | succ count ih =>
    have hfirst : has i = true := hthere i (Nat.le_refl i) (by omega)
    rw [List.range'_succ, List.mapM_cons]
    cases ha : read i with
    | error e => exact .fails hfirst ha
    | ok a =>
      have hrest := ih (i := i + 1) (fun j hj hlt => hthere j (by omega) (by omega))
        (by rw [show i + 1 + count = i + (count + 1) from by omega]; exact hgap) (add b a)
      refine .next hfirst ha ?_
      cases hread : (List.range' (i + 1) count).mapM read with
      | error e =>
        rw [hread] at hrest
        exact hrest
      | ok l =>
        rw [hread] at hrest
        exact hrest

/-- The turns that begin with the number one come to what a traversal of the numbers before the gap
comes to, and to nothing else. -/
theorem turns_iff (h : FirstGap has n) :
    Turns has read add 1 b outcome ↔
      outcome = (fun l => l.foldl add b) <$> (List.range' 1 (n - 1)).mapM read := by
  have hone := h.one_le
  have hturns : Turns has read add 1 b
      ((fun l => l.foldl add b) <$> (List.range' 1 (n - 1)).mapM read) := by
    refine turns_range' (n - 1) (fun j hj hlt => h.there j hj (by omega)) ?_ b
    rw [show 1 + (n - 1) = n from by omega]
    exact h.gap
  constructor
  · exact fun hother => hother.unique hturns
  · rintro rfl
    exact hturns

end Turns

end ColumnConnector.Numbering
