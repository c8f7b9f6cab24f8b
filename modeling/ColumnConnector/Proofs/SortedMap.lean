import ColumnConnector.SortedMap
import Mathlib.Data.List.Sort

/-!
# What a sorted map holds

Where equal keys are one key, the entries of a map are exactly the pairs that `get?` finds, and each
operation is described by what `get?` finds afterwards: `get?_upsert_eq`, `get?_erase`,
`get?_mapValues`, `get?_overlay`.  What it finds is all there is to a map
(`eq_of_get?`).
-/

namespace ColumnConnector.SortedMap

open Std

variable {κ α β : Type} [Ord κ]

theorem get?_empty (k : κ) : (∅ : SortedMap κ α).get? k = none := rfl

theorem lookup_map (f : α → β) (k : κ) (l : List (κ × α)) :
    lookup k (l.map fun e => (e.1, f e.2)) = (lookup k l).map f := by
  induction l with
  | nil => rfl
  | cons head rest ih =>
    simp only [List.map_cons, lookup, ih]
    split <;> rfl

theorem get?_mapValues (m : SortedMap κ α) (f : α → β) (k : κ) :
    (m.mapValues f).get? k = (m.get? k).map f :=
  lookup_map f k m.entries

theorem nodup_keys [LawfulEqOrd κ] (m : SortedMap κ α) : (m.entries.map Prod.fst).Nodup := by
  rw [List.Nodup, List.pairwise_map]
  apply m.ascending.imp
  intro a b hlt heq
  rw [LawfulEqOrd.compare_eq_iff_eq.2 heq] at hlt
  cases hlt

/-- In ascending order of their keys there is one list of given elements. -/
theorem eq_of_ascending [TransOrd κ] (key : α → κ) {l l' : List α}
    (h : l.Pairwise fun a b => compare (key a) (key b) = .lt)
    (h' : l'.Pairwise fun a b => compare (key a) (key b) = .lt) (hmem : ∀ a, a ∈ l ↔ a ∈ l') :
    l = l' := by
  have hirrefl : Irrefl fun a b => compare (key a) (key b) = .lt := by
    constructor
    intro a hlt
    rw [ReflOrd.compare_self] at hlt
    exact absurd hlt (by decide)
  have hasymm : Asymm fun a b => compare (key a) (key b) = .lt := by
    constructor
    intro a b hlt hgt
    rw [OrientedCmp.gt_of_lt hlt] at hgt
    exact absurd hgt (by decide)
  exact h.eq_of_mem_iff h' hmem

/-! ### Maps in which equal keys are one key -/

variable [DecidableEq κ] [LawfulEqOrd κ]

theorem lookup_filter_ne (k k' : κ) (l : List (κ × α)) :
    lookup k' (l.filter fun e => compare k e.1 ≠ .eq) = if k' = k then none else lookup k' l := by
  induction l with
  | nil => simp [lookup]
  | cons head rest ih =>
    obtain ⟨hd, v⟩ := head
    by_cases hk : k = hd
    · rw [List.filter_cons_of_neg (by simp [hk]), ih]
      by_cases hk' : k' = k
      · simp [hk']
      · have hne : k' ≠ hd := fun h => hk' (h.trans hk.symm)
        simp [lookup, hk', hne]
    · rw [List.filter_cons_of_pos (by simp [hk])]
      by_cases hh : k' = hd
      · simp [lookup, hh, Ne.symm hk]
      · have hcmp : compare k' hd ≠ .eq := by simpa using hh
        rw [lookup, if_neg hcmp, ih, lookup, if_neg hcmp]

theorem get?_erase (m : SortedMap κ α) (k k' : κ) :
    (m.erase k).get? k' = if k' = k then none else m.get? k' :=
  lookup_filter_ne k k' m.entries

theorem lookup_eq_some_iff {l : List (κ × α)}
    (h : l.Pairwise (fun a b => compare a.1 b.1 = .lt)) {k : κ} {v : α} :
    lookup k l = some v ↔ (k, v) ∈ l := by
  induction l with
  | nil => simp [lookup]
  | cons head rest ih =>
    obtain ⟨hhead, hrest⟩ := List.pairwise_cons.1 h
    by_cases hk : k = head.1
    · subst hk
      have habsent : (head.1, v) ∉ rest := fun hmem => by
        have hlt : compare head.1 head.1 = .lt := hhead (head.1, v) hmem
        rw [LawfulEqOrd.compare_eq_iff_eq.2 rfl] at hlt
        exact absurd hlt (by decide)
      simp only [lookup, LawfulEqOrd.compare_eq_iff_eq.2, if_true, Option.some.injEq,
        List.mem_cons, habsent, or_false]
      exact ⟨fun hv => by rw [← hv], fun hv => (congrArg Prod.snd hv).symm⟩
    · have hne : (k, v) ≠ head := fun he => hk (congrArg Prod.fst he)
      simp [lookup, hk, ih hrest, hne]

theorem get?_eq_some_iff {m : SortedMap κ α} {k : κ} {v : α} :
    m.get? k = some v ↔ (k, v) ∈ m.entries :=
  lookup_eq_some_iff m.ascending

theorem mem_of_lookup {k : κ} {v : α} {l : List (κ × α)} (h : lookup k l = some v) :
    (k, v) ∈ l := by
  induction l with
  | nil => cases h
  | cons head rest ih =>
    by_cases hk : k = head.1
    · rw [lookup, if_pos (LawfulEqOrd.compare_eq_iff_eq.2 hk)] at h
      cases h
      rw [hk]
      exact List.mem_cons_self
    · rw [lookup, if_neg (by simpa using hk)] at h
      exact List.mem_cons_of_mem head (ih h)

theorem lookup_eq_none_iff {k : κ} {l : List (κ × α)} :
    lookup k l = none ↔ k ∉ l.map Prod.fst := by
  induction l with
  | nil => simp [lookup]
  | cons head rest ih => by_cases hk : k = head.1 <;> simp [lookup, hk, ih]

theorem lookup_of_mem {l : List (κ × α)} (h : (l.map Prod.fst).Nodup) {k : κ} {v : α}
    (hmem : (k, v) ∈ l) : lookup k l = some v := by
  induction l with
  | nil => cases hmem
  | cons head rest ih =>
    obtain ⟨hhead, hrest⟩ := List.nodup_cons.1 h
    by_cases hk : k = head.1
    · rcases List.mem_cons.1 hmem with rfl | hlater
      · rw [lookup, if_pos (LawfulEqOrd.compare_eq_iff_eq.2 rfl)]
      · exact absurd (hk ▸ List.mem_map_of_mem hlater) hhead
    · have hlater : (k, v) ∈ rest :=
        (List.mem_cons.1 hmem).resolve_left fun he => hk (congrArg Prod.fst he)
      rw [lookup, if_neg (by simpa using hk), ih hrest hlater]

variable [TransOrd κ]

theorem get?_upsert_eq (m : SortedMap κ α) (k k' : κ) (f : Option α → α) :
    (m.upsert k f).get? k' = if k' = k then some (f (m.get? k)) else m.get? k' := by
  simp [get?_upsert]

theorem get?_insert_eq (m : SortedMap κ α) (k k' : κ) (v : α) :
    (m.insert k v).get? k' = if k' = k then some v else m.get? k' :=
  get?_upsert_eq m k k' _

theorem get?_upsert_self (m : SortedMap κ α) (k : κ) (f : Option α → α) :
    (m.upsert k f).get? k = some (f (m.get? k)) := by
  simp [get?_upsert_eq]

theorem get?_upsert_of_ne (m : SortedMap κ α) {k k' : κ} (f : Option α → α) (h : k' ≠ k) :
    (m.upsert k f).get? k' = m.get? k' := by
  simp [get?_upsert_eq, h]

theorem get?_foldl_insert {l : List (κ × α)} (h : (l.map Prod.fst).Nodup) (m : SortedMap κ α)
    (k : κ) : (l.foldl (fun m e => m.insert e.1 e.2) m).get? k = (lookup k l).or (m.get? k) := by
  induction l generalizing m with
  | nil => rfl
  | cons head rest ih =>
    obtain ⟨hhead, hrest⟩ := List.nodup_cons.1 h
    rw [List.foldl_cons, ih hrest, get?_insert_eq, lookup]
    by_cases hk : k = head.1
    · have habsent : lookup k rest = none := lookup_eq_none_iff.2 (hk ▸ hhead)
      rw [habsent, if_pos hk, if_pos (LawfulEqOrd.compare_eq_iff_eq.2 hk)]
      rfl
    · have hne : compare k head.1 ≠ .eq := by simpa using hk
      rw [if_neg hk, if_neg hne]

/-- What is laid over a map comes before what stands there. -/
theorem get?_overlay (m upper : SortedMap κ α) (k : κ) :
    (m.overlay upper).get? k = (upper.get? k).or (m.get? k) :=
  get?_foldl_insert upper.nodup_keys m k

/-! ### Maps made of lists -/

theorem get?_ofList {l : List (κ × α)} (h : (l.map Prod.fst).Nodup) (k : κ) :
    (ofList l).get? k = lookup k l := by
  rw [ofList, get?_foldl_insert h, get?_empty, Option.or_none]

theorem mem_insert {m : SortedMap κ α} {k : κ} {v : α} {e : κ × α}
    (h : e ∈ (m.insert k v).entries) : e = (k, v) ∨ e ∈ m.entries := by
  obtain ⟨k', v'⟩ := e
  have hget := get?_eq_some_iff.2 h
  rw [get?_insert_eq] at hget
  by_cases hk : k' = k
  · rw [if_pos hk] at hget
    cases hget
    exact .inl (by rw [hk])
  · rw [if_neg hk] at hget
    exact .inr (get?_eq_some_iff.1 hget)

theorem mem_of_mem_ofList {l : List (κ × α)} {e : κ × α} (h : e ∈ (ofList l).entries) : e ∈ l := by
  have hfoldl : ∀ (l : List (κ × α)) (m : SortedMap κ α),
      e ∈ (l.foldl (fun m e => m.insert e.1 e.2) m).entries → e ∈ l ∨ e ∈ m.entries := by
    intro l
    induction l with
    | nil => exact fun m hmem => .inr hmem
    | cons head rest ih =>
      intro m hmem
      rcases ih _ hmem with hrest | hinsert
      · exact .inl (List.mem_cons_of_mem head hrest)
      · rcases mem_insert hinsert with rfl | hm
        · exact .inl List.mem_cons_self
        · exact .inr hm
  exact (hfoldl l ∅ h).resolve_right List.not_mem_nil

/-- A map is known by what `get?` finds. -/
theorem eq_of_get? {m m' : SortedMap κ α} (h : ∀ k, m.get? k = m'.get? k) : m = m' := by
  refine ext (eq_of_ascending Prod.fst m.ascending m'.ascending fun ⟨k, v⟩ => ?_)
  rw [← get?_eq_some_iff, ← get?_eq_some_iff, h]

theorem ofList_entries (m : SortedMap κ α) : ofList m.entries = m :=
  eq_of_get? fun k => get?_ofList m.nodup_keys k

end ColumnConnector.SortedMap
