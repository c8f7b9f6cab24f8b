/-!
# Maps with ascending keys

A finite map is the list of its entries in strictly ascending key order, and the order is part
of the type, so that two maps with the same entries are equal.  Everything is written with one
operation, `upsert`, which replaces the value under a key or adds one.

The lemmas say what each operation does to `get?`.
-/

namespace ColumnConnector

open Std

/-- Entries in strictly ascending order of their keys. -/
structure SortedMap (κ : Type) (α : Type) [Ord κ] where
  entries : List (κ × α)
  ascending : entries.Pairwise (fun a b => compare a.1 b.1 = .lt)

namespace SortedMap

variable {κ α β : Type} [Ord κ]

instance [DecidableEq κ] [DecidableEq α] : DecidableEq (SortedMap κ α) := fun a b =>
  decidable_of_iff (a.entries = b.entries) (by cases a; cases b; simp)

def empty : SortedMap κ α := ⟨[], .nil⟩

instance : EmptyCollection (SortedMap κ α) := ⟨empty⟩

instance : Inhabited (SortedMap κ α) := ⟨empty⟩

/-- The value under `k` in a list of entries. -/
def lookup (k : κ) : List (κ × α) → Option α
  | [] => none
  | (k', v) :: rest => if compare k k' = .eq then some v else lookup k rest

def get? (m : SortedMap κ α) (k : κ) : Option α := lookup k m.entries

def contains (m : SortedMap κ α) (k : κ) : Bool := (m.get? k).isSome

def size (m : SortedMap κ α) : Nat := m.entries.length

def keys (m : SortedMap κ α) : List κ := m.entries.map (·.1)

/-- Put `f` of what stands under `k` there, keeping the order of the entries. -/
def upsertEntry (k : κ) (f : Option α → α) : List (κ × α) → List (κ × α)
  | [] => [(k, f none)]
  | (k', v) :: rest =>
    match compare k k' with
    | .lt => (k, f none) :: (k', v) :: rest
    | .eq => (k, f (some v)) :: rest
    | .gt => (k', v) :: upsertEntry k f rest

theorem mem_upsertEntry {k : κ} {f : Option α → α} {l : List (κ × α)} {e : κ × α}
    (h : e ∈ upsertEntry k f l) : e.1 = k ∨ e ∈ l := by
  induction l with
  | nil => simp only [upsertEntry, List.mem_singleton] at h; exact .inl (by rw [h])
  | cons head rest ih =>
    obtain ⟨k', v⟩ := head
    rw [upsertEntry] at h
    split at h
    · rcases List.mem_cons.1 h with h | h
      · exact .inl (by rw [h])
      · exact .inr h
    · rcases List.mem_cons.1 h with h | h
      · exact .inl (by rw [h])
      · exact .inr (List.mem_cons_of_mem _ h)
    · rcases List.mem_cons.1 h with h | h
      · exact .inr (by rw [h]; exact List.mem_cons_self)
      · exact (ih h).imp id (List.mem_cons_of_mem _)

theorem ascending_upsertEntry [TransOrd κ] {k : κ} {f : Option α → α} {l : List (κ × α)}
    (h : l.Pairwise (fun a b => compare a.1 b.1 = .lt)) :
    (upsertEntry k f l).Pairwise (fun a b => compare a.1 b.1 = .lt) := by
  induction l with
  | nil => exact List.pairwise_singleton _ _
  | cons head rest ih =>
    obtain ⟨k', v⟩ := head
    obtain ⟨hhead, hrest⟩ := List.pairwise_cons.1 h
    rw [upsertEntry]
    split
    · next hlt =>
      refine List.pairwise_cons.2 ⟨fun e he => ?_, h⟩
      rcases List.mem_cons.1 he with he | he
      · rw [he]; exact hlt
      · exact TransCmp.lt_trans hlt (hhead e he)
    · next heq =>
      exact List.pairwise_cons.2 ⟨fun e he => TransCmp.lt_of_eq_of_lt heq (hhead e he), hrest⟩
    · next hgt =>
      refine List.pairwise_cons.2 ⟨fun e he => ?_, ih hrest⟩
      rcases mem_upsertEntry he with he | he
      · rw [he]; exact OrientedCmp.lt_of_gt hgt
      · exact hhead e he

/-- Put `f` of what stands under `k` there. -/
def upsert [TransOrd κ] (m : SortedMap κ α) (k : κ) (f : Option α → α) : SortedMap κ α :=
  ⟨upsertEntry k f m.entries, ascending_upsertEntry m.ascending⟩

def insert [TransOrd κ] (m : SortedMap κ α) (k : κ) (v : α) : SortedMap κ α :=
  m.upsert k fun _ => v

def erase (m : SortedMap κ α) (k : κ) : SortedMap κ α :=
  ⟨m.entries.filter (fun e => compare k e.1 ≠ .eq), m.ascending.filter _⟩

/-- The map with every value changed. -/
def mapValues (m : SortedMap κ α) (f : α → β) : SortedMap κ β :=
  ⟨m.entries.map fun e => (e.1, f e.2), List.pairwise_map.2 m.ascending⟩

/-- The entries of a list, a later one replacing an earlier one of the same key. -/
def ofList [TransOrd κ] (l : List (κ × α)) : SortedMap κ α :=
  l.foldl (fun m e => m.insert e.1 e.2) ∅

/-- The entries of `m` with those of `upper` laid over them. -/
def overlay [TransOrd κ] (m upper : SortedMap κ α) : SortedMap κ α :=
  upper.entries.foldl (fun m e => m.insert e.1 e.2) m

theorem ext {m n : SortedMap κ α} (h : m.entries = n.entries) : m = n := by
  cases m; cases n; simp_all

theorem lookup_upsertEntry [TransOrd κ] (k k' : κ) (f : Option α → α) {l : List (κ × α)}
    (h : l.Pairwise (fun a b => compare a.1 b.1 = .lt)) :
    lookup k' (upsertEntry k f l) =
      if compare k' k = .eq then some (f (lookup k l)) else lookup k' l := by
  induction l with
  | nil => simp [upsertEntry, lookup]
  | cons head rest ih =>
    obtain ⟨hd, v⟩ := head
    obtain ⟨hhead, hrest⟩ := List.pairwise_cons.1 h
    have hih := ih hrest
    rw [upsertEntry]
    split
    · next hlt =>
      have habsent : lookup k rest = none := by
        clear hih ih h
        induction rest with
        | nil => rfl
        | cons e rest ih =>
          have he := TransCmp.lt_trans hlt (hhead e List.mem_cons_self)
          rw [lookup, if_neg (by rw [he]; decide)]
          exact ih (fun x hx => hhead x (List.mem_cons_of_mem _ hx)) (List.pairwise_cons.1 hrest).2
      simp [lookup, hlt, habsent]
    · next heq =>
      by_cases hk : compare k' k = .eq
      · simp [lookup, hk, heq]
      · have : compare k' hd ≠ .eq := fun he =>
          hk (TransCmp.eq_trans he (OrientedCmp.eq_symm heq))
        simp [lookup, hk, this]
    · next hgt =>
      have hne : compare k hd ≠ .eq := by rw [hgt]; decide
      by_cases hd' : compare k' hd = .eq
      · have : compare k' k ≠ .eq := fun he => hne (TransCmp.eq_trans (OrientedCmp.eq_symm he) hd')
        simp [lookup, hd', this]
      · simp [lookup, hd', hne, hih]

theorem get?_upsert [TransOrd κ] (m : SortedMap κ α) (k k' : κ) (f : Option α → α) :
    (m.upsert k f).get? k' = if compare k' k = .eq then some (f (m.get? k)) else m.get? k' :=
  lookup_upsertEntry k k' f m.ascending

end SortedMap

end ColumnConnector
