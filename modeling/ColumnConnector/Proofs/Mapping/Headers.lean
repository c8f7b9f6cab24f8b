import ColumnConnector.Mapping.Headers
import ColumnConnector.Proofs.Connector.Headers
import ColumnConnector.Proofs.Numbering

/-!
# Results in numbered headers

Writing the cells of a result sets the headers of as many entries, and no others: `get?_write` says
what stands in every header of every entry afterwards.

Entries are read up to the first gap (`entryNumbers_eq_iff`).  Behind the cells of a result stands
whatever stood there before, so the gap comes right after them only if there was one.
-/

namespace ColumnConnector.HeaderMapping

open Header

/-! ### Writing -/

/-- What is written of a cell, by the parts of its entry. -/
def fields (entry : Option CellValue × Cell) : List (String × Json) := [
  (rowId, valueJson entry.1), (family, nameJson entry.2.family),
  (qualifier, nameJson entry.2.qualifier), (value, valueJson entry.2.value)]

theorem mem_ofEntry_of_mem_fields {entry : Option CellValue × Cell} {f : String × Json}
    (h : f ∈ fields entry) : f.1 ∈ ofEntry := by
  have hparts : ∀ part ∈ [rowId, family, qualifier, value], part ∈ ofEntry := by decide
  exact hparts f.1 (List.mem_map_of_mem h)

theorem lookup_fields {entry : Option CellValue × Cell} {f : String × Json}
    (h : f ∈ fields entry) : (fields entry).lookup f.1 = some f.2 := by
  simp only [fields, List.mem_cons, List.not_mem_nil, or_false] at h
  rcases h with rfl | rfl | rfl | rfl <;> rfl

/-- Does an entry with these fields count as one? -/
def isVisible (entry : Option CellValue × Cell) : Bool :=
  !(valueJson entry.1).isNull || entry.2.family.isSome || entry.2.qualifier.isSome

/-- Set headers of the entry of a number. -/
def setFields (m : Message) (entry : List (String × Json) × Nat) : Message :=
  entry.1.foldl (fun m f => m.setHeader (numbered f.1 entry.2) f.2) m

/-- Each header of an entry is named at most once. -/
def OfEntry (fields : List (String × Json)) : Prop :=
  (fields.map Prod.fst).Nodup ∧ ∀ f ∈ fields, f.1 ∈ ofEntry

theorem ofEntry_fields (entry : Option CellValue × Cell) : OfEntry (fields entry) := by
  refine ⟨?_, fun f => mem_ofEntry_of_mem_fields⟩
  show [rowId, family, qualifier, value].Nodup
  decide

theorem write_eq_foldl_setFields (batch : RowBatch) (m : Message) :
    write batch m = (((entries batch).map fields).zipIdx 1).foldl setFields m := by
  rw [List.zipIdx_map, List.foldl_map]
  rfl

section Writing

variable {name : String} (hname : name ∈ ofEntry) {i j n : Nat}
include hname

/-- An entry of which fields are set has them, and no other entry does. -/
theorem get?_setFields {fields : List (String × Json)} (hfields : OfEntry fields) (hi : 1 ≤ i)
    (hj : 1 ≤ j) (m : Message) :
    (setFields m (fields, i)).headers.get? (numbered name j) =
      if j = i then (fields.lookup name).or (m.headers.get? (numbered name j))
      else m.headers.get? (numbered name j) := by
  induction fields generalizing m with
  | nil =>
    rw [List.lookup_nil, Option.none_or, ite_self]
    rfl
  | cons f rest ih =>
    obtain ⟨hfresh, hrest⟩ := List.nodup_cons.1 hfields.1
    obtain ⟨hf, hparts⟩ := List.forall_mem_cons.1 hfields.2
    have hset : (m.setHeader (numbered f.1 i) f.2).headers.get? (numbered name j) =
        if name = f.1 ∧ j = i then some f.2 else m.headers.get? (numbered name j) := by
      rw [Message.setHeader, SortedMap.get?_insert_eq]
      simp only [numbered_inj (plain_of_mem_ofEntry name hname) (plain_of_mem_ofEntry f.1 hf) hj hi]
    show (setFields (m.setHeader (numbered f.1 i) f.2) (rest, i)).headers.get? _ = _
    rw [ih ⟨hrest, hparts⟩, hset]
    by_cases hj : j = i
    · rw [if_pos hj, if_pos hj, List.lookup_cons]
      by_cases hf : name = f.1
      · have habsent : rest.lookup name = none := by
          rw [List.lookup_eq_none_iff]
          intro g hg
          have hne : name ≠ g.1 := fun h => hfresh (List.mem_map.2 ⟨g, hg, h.symm.trans hf⟩)
          simpa using hne
        rw [habsent, if_pos ⟨hf, hj⟩, show (name == f.1) = true from by simpa using hf]
        rfl
      · rw [if_neg fun h => hf h.1, show (name == f.1) = false from by simpa using hf]
    · rw [if_neg hj, if_neg hj, if_neg fun h => hj h.2]

/-- Fields that are set from the entry `n` on. -/
theorem get?_foldl_setFields (hn : 1 ≤ n) (hj : 1 ≤ j) {l : List (List (String × Json))}
    (hl : ∀ fields ∈ l, OfEntry fields) (m : Message) :
    ((l.zipIdx n).foldl setFields m).headers.get? (numbered name j) =
      if n ≤ j then (l[j - n]?.bind fun fields => fields.lookup name).or
        (m.headers.get? (numbered name j))
      else m.headers.get? (numbered name j) := by
  induction l generalizing m n with
  | nil =>
    rw [List.getElem?_nil, Option.bind_none, Option.none_or, ite_self]
    rfl
  | cons fields rest ih =>
    obtain ⟨hfirst, hrest⟩ := List.forall_mem_cons.1 hl
    rw [List.zipIdx_cons, List.foldl_cons, ih (by omega) hrest, get?_setFields hname hfirst hn hj]
    rcases Nat.lt_trichotomy j n with hlt | rfl | hgt
    · rw [if_neg (by omega), if_neg (by omega), if_neg (by omega)]
    · rw [if_neg (by omega), if_pos rfl, if_pos (Nat.le_refl j), Nat.sub_self]
      rfl
    · rw [if_pos (by omega), if_neg (by omega), if_pos (by omega),
        show j - n = j - (n + 1) + 1 from by omega, List.getElem?_cons_succ]

/-- The cells of a batch stand in the headers of the entries from the first on; in the headers of
further entries, and in those of the types, stands what stood there before. -/
theorem get?_write (hj : 1 ≤ j) (batch : RowBatch) (m : Message) :
    (write batch m).headers.get? (numbered name j) =
      ((entries batch)[j - 1]?.bind fun entry => (fields entry).lookup name).or
        (m.headers.get? (numbered name j)) := by
  have hfields : ∀ l ∈ (entries batch).map fields, OfEntry l := by
    intro l hl
    obtain ⟨entry, -, rfl⟩ := List.mem_map.1 hl
    exact ofEntry_fields entry
  rw [write_eq_foldl_setFields, get?_foldl_setFields hname (Nat.le_refl 1) hj hfields, if_pos hj,
    List.getElem?_map, Option.bind_map]
  rfl

end Writing

/-- Each cell of a batch stands in the headers of the entry of its number. -/
theorem get?_write_field {batch : RowBatch} {i : Nat} {entry : Option CellValue × Cell}
    (hentry : (entries batch)[i]? = some entry) {f : String × Json} (hf : f ∈ fields entry)
    (m : Message) : (write batch m).headers.get? (numbered f.1 (i + 1)) = some f.2 := by
  rw [get?_write (mem_ofEntry_of_mem_fields hf) (Nat.le_add_left 1 i), Nat.add_sub_cancel, hentry,
    Option.bind_some, lookup_fields hf, Option.some_or]

/-! ### What writing leaves alone -/

/-- The parts of an entry that are written. -/
def parts : List String := [rowId, family, qualifier, value]

theorem body_write (batch : RowBatch) (m : Message) : (write batch m).body = m.body := by
  rw [write]
  generalize (entries batch).zipIdx 1 = numbers
  induction numbers generalizing m with
  | nil => rfl
  | cons entry rest ih => exact ih (writeEntry m entry)

theorem get?_writeEntry_of_ne {name : String} {i : Nat}
    (h : ∀ part ∈ parts, name ≠ numbered part i) (m : Message) (entry : Option CellValue × Cell) :
    (writeEntry m (entry, i)).headers.get? name = m.headers.get? name := by
  simp only [parts, List.forall_mem_cons] at h
  obtain ⟨hid, hfamily, hqualifier, hvalue, -⟩ := h
  simp [writeEntry, Message.setHeader, SortedMap.get?_insert_eq, hid, hfamily, hqualifier, hvalue]

theorem get?_foldl_writeEntry_of_ne {name : String} {n : Nat}
    (cells : List (Option CellValue × Cell))
    (h : ∀ part ∈ parts, ∀ i, n ≤ i → i < n + cells.length → name ≠ numbered part i)
    (m : Message) :
    ((cells.zipIdx n).foldl writeEntry m).headers.get? name = m.headers.get? name := by
  induction cells generalizing m n with
  | nil => rfl
  | cons entry rest ih =>
    rw [List.length_cons] at h
    have hrest := ih (n := n + 1) (fun part hpart i hi hlt => h part hpart i (by omega) (by omega))
      (writeEntry m (entry, n))
    have hfirst := get?_writeEntry_of_ne (fun part hpart => h part hpart n (by omega) (by omega))
      m entry
    exact hrest.trans hfirst

/-- Writing a batch sets no headers but those of its entries. -/
theorem get?_write_of_ne {batch : RowBatch} {name : String}
    (h : ∀ part ∈ parts, ∀ i, 1 ≤ i → i ≤ (entries batch).length → name ≠ numbered part i)
    (m : Message) : (write batch m).headers.get? name = m.headers.get? name :=
  get?_foldl_writeEntry_of_ne (entries batch)
    (fun part hpart i hi hlt => h part hpart i hi (by omega)) m

/-! ### Reading -/

theorem hasHeader_eq_of_get? {m : Message} {name : String} {j : Json}
    (h : m.headers.get? name = some j) : m.hasHeader name = !j.isNull := by
  rw [Message.hasHeader, Message.header, h, Option.filter]
  cases j.isNull <;> rfl

theorem isNull_nameJson (name : Option String) : (nameJson name).isNull = name.isNone := by
  cases name <;> rfl

theorem hasEntry_congr {m m' : Message} {j : Nat} (h : ∀ name ∈ ofEntry,
    m'.headers.get? (numbered name j) = m.headers.get? (numbered name j)) :
    hasEntry m' j = hasEntry m j := by
  have hkept : ∀ name ∈ ofEntry, m'.hasHeader (numbered name j) = m.hasHeader (numbered name j) :=
    fun name hname => Message.hasHeader_congr (h name hname)
  simp only [hasEntry, List.any_cons, List.any_nil, hkept rowId (by decide),
    hkept family (by decide), hkept qualifier (by decide)]

/-- The entries of a message after a batch was written: those of the batch, and behind them the
ones that were there before. -/
theorem hasEntry_write {j : Nat} (hj : 1 ≤ j) (batch : RowBatch) (m : Message) :
    hasEntry (write batch m) j = ((entries batch)[j - 1]?).elim (hasEntry m j) isVisible := by
  have hwrite : ∀ name ∈ ofEntry, (write batch m).headers.get? (numbered name j) = _ :=
    fun name hname => get?_write hname hj batch m
  cases hentry : (entries batch)[j - 1]? with
  | none =>
    simp only [hentry, Option.bind_none, Option.none_or] at hwrite
    exact hasEntry_congr hwrite
  | some entry =>
    rw [hentry] at hwrite
    have hid : (write batch m).hasHeader (numbered rowId j) = !(valueJson entry.1).isNull :=
      hasHeader_eq_of_get? (hwrite rowId (by decide))
    have hfamily : (write batch m).hasHeader (numbered family j) = entry.2.family.isSome := by
      rw [hasHeader_eq_of_get? (hwrite family (by decide) : _ = some (nameJson entry.2.family)),
        isNull_nameJson, Option.not_isNone]
    have hqualifier : (write batch m).hasHeader (numbered qualifier j) =
        entry.2.qualifier.isSome := by
      rw [hasHeader_eq_of_get?
          (hwrite qualifier (by decide) : _ = some (nameJson entry.2.qualifier)),
        isNull_nameJson, Option.not_isNone]
    simp only [hasEntry, List.any_cons, List.any_nil, hid, hfamily, hqualifier, Option.elim,
      isVisible, Bool.or_false, Bool.or_assoc]

/-! ### The entries up to the first gap -/

/-- Each entry has a header of its own, so there are no more entries in a row than headers. -/
theorem le_size_of_hasEntry {m : Message} {n : Nat}
    (h : ∀ i, 1 ≤ i → i ≤ n → hasEntry m i = true) : n ≤ m.headers.size := by
  have hentry : ∀ name ∈ [rowId, family, qualifier], name ∈ ofEntry := by decide
  refine Numbering.le_size_of_names
    (fun name hname => plain_of_mem_ofEntry name (hentry name hname)) fun i hi hle => ?_
  obtain ⟨name, hname, hheader⟩ := List.any_eq_true.1 (h i hi hle)
  exact ⟨name, hname, Option.isSome_of_isSome_filter _ _ hheader⟩

theorem exists_entryNumbers (m : Message) :
    ∃ n, entryNumbers m = List.range' 1 n ∧ (∀ i, 1 ≤ i → i ≤ n → hasEntry m i = true) ∧
      hasEntry m (n + 1) = false :=
  Numbering.exists_count fun _ => le_size_of_hasEntry

/-- Reading meets exactly the first `k` entries when these are there and the next is not. -/
theorem entryNumbers_eq_iff {m : Message} {k : Nat} :
    entryNumbers m = List.range' 1 k ↔
      (∀ i, 1 ≤ i → i ≤ k → hasEntry m i = true) ∧ hasEntry m (k + 1) = false := by
  obtain ⟨n, hnumbers, hall, hgap⟩ := exists_entryNumbers m
  rw [hnumbers]
  constructor
  · intro heq
    have hlength : n = k := by
      have hsame := congrArg List.length heq
      rw [List.length_range', List.length_range'] at hsame
      exact hsame
    rw [← hlength]
    exact ⟨hall, hgap⟩
  · rintro ⟨hentries, hnext⟩
    rcases Nat.lt_trichotomy n k with hlt | rfl | hgt
    · rw [hentries (n + 1) (by omega) hlt] at hgap
      cases hgap
    · rfl
    · rw [hall (k + 1) (by omega) hgt] at hnext
      cases hnext

/-- Entries that follow each other from the first on, and can all be read, are put together. -/
theorem resolve_eq_foldl_addEntry {m : Message} {rows : List Row}
    (hrows : ∀ i (r : Row), rows[i]? = some r →
      hasEntry m (i + 1) = true ∧ entryRow m (i + 1) = .ok r)
    (hends : hasEntry m (rows.length + 1) = false) :
    resolve m = .ok (rows.foldl (fun batch entry => addEntry entry batch) []) := by
  have hnumbers : entryNumbers m = List.range' 1 rows.length := by
    refine entryNumbers_eq_iff.2 ⟨fun i hi hle => ?_, hends⟩
    have hlt : i - 1 < rows.length := by omega
    have hentry := (hrows (i - 1) _ (List.getElem?_eq_getElem hlt)).1
    rw [Nat.sub_add_cancel hi] at hentry
    exact hentry
  have hread : (entryNumbers m).mapM (entryRow m) = .ok rows := by
    rw [hnumbers, mapM_eq_ok_iff, List.forall₂_iff_get]
    refine ⟨List.length_range', fun i _ hi => ?_⟩
    have hrow := (hrows i _ (List.getElem?_eq_getElem hi)).2
    simpa [Nat.add_comm] using hrow
  rw [resolve, hread]

/-- Reading after a batch was written meets exactly the cells of the batch when each of them counts
as an entry and there was no entry of the next number. -/
theorem entryNumbers_write_eq_iff (batch : RowBatch) (m : Message) :
    entryNumbers (write batch m) = List.range' 1 (entries batch).length ↔
      (∀ entry ∈ entries batch, isVisible entry = true) ∧
        hasEntry m ((entries batch).length + 1) = false := by
  have hnext : hasEntry (write batch m) ((entries batch).length + 1) =
      hasEntry m ((entries batch).length + 1) := by
    rw [hasEntry_write (by omega), List.getElem?_eq_none (by omega)]
    rfl
  rw [entryNumbers_eq_iff, hnext, and_congr_left_iff]
  intro _
  constructor
  · intro hall entry hentry
    obtain ⟨i, hi, hget⟩ := List.getElem_of_mem hentry
    have hvisible := hall (i + 1) (by omega) hi
    rw [hasEntry_write (by omega), Nat.add_sub_cancel, List.getElem?_eq_getElem hi, hget]
      at hvisible
    exact hvisible
  · intro hvisible i hi hle
    have hlt : i - 1 < (entries batch).length := by omega
    rw [hasEntry_write hi, List.getElem?_eq_getElem hlt]
    exact hvisible _ (List.getElem_mem hlt)

end ColumnConnector.HeaderMapping
