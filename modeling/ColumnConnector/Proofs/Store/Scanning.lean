import ColumnConnector.Proofs.Store.Reading

/-!
# What a scan finds in a table

A scan looks at the newest version of every column it asks for.  `Table.scan_eq` says which rows of
a table it returns, and that it returns of each row exactly these versions, in the order of the
columns; `mem_column_newest_iff` that each of them is found again under its column.  Of several
versions of a column the latest is the newest one (`KeyValue.latest_eq_some_iff`).

With one version of a column at most there is nothing to bring into order, whatever the timestamps
are, so nothing is assumed about the table.
-/

namespace ColumnConnector

open Std

/-! ### The latest of some cells -/

namespace KeyValue

theorem foldl_later_mem (best : Option KeyValue) (cells : List KeyValue) :
    cells.foldl later best = best ∨ ∃ kv ∈ cells, cells.foldl later best = some kv := by
  induction cells generalizing best with
  | nil => exact .inl rfl
  | cons kv rest ih =>
    have hlater : later best kv = best ∨ later best kv = some kv := by
      cases best with
      | none => exact .inr rfl
      | some b =>
        simp only [later]
        split
        · exact .inr rfl
        · exact .inl rfl
    rcases ih (later best kv) with hrest | ⟨kv', hmem, hrest⟩
    · rcases hlater with hsame | hnew
      · exact .inl (hrest.trans hsame)
      · exact .inr ⟨kv, List.mem_cons_self, hrest.trans hnew⟩
    · exact .inr ⟨kv', List.mem_cons_of_mem kv hmem, hrest⟩

/-- The newest of some versions: none is of a later time, and none behind it is of the same. -/
def Newest (cells : List KeyValue) (kv : KeyValue) : Prop :=
  ∃ before after, cells = before ++ kv :: after ∧
    (∀ other ∈ before, other.timestamp ≤ kv.timestamp) ∧
    ∀ other ∈ after, other.timestamp < kv.timestamp

theorem Newest.mem {cells : List KeyValue} {kv : KeyValue} (h : Newest cells kv) : kv ∈ cells := by
  obtain ⟨before, after, rfl, -⟩ := h
  simp

/-- Older versions behind the best one change nothing. -/
theorem foldl_later_older {best : KeyValue} {cells : List KeyValue}
    (h : ∀ kv ∈ cells, kv.timestamp < best.timestamp) :
    cells.foldl later (some best) = some best := by
  induction cells with
  | nil => rfl
  | cons kv rest ih =>
    obtain ⟨hkv, hrest⟩ := List.forall_mem_cons.1 h
    have hkept : later (some best) kv = some best := if_neg (Int64.not_le.2 hkv)
    rw [List.foldl_cons, hkept, ih hrest]

theorem later_of_le {best : Option KeyValue} {kv : KeyValue}
    (h : ∀ b, best = some b → b.timestamp ≤ kv.timestamp) : later best kv = some kv := by
  cases best with
  | none => rfl
  | some b => exact if_pos (h b rfl)

theorem latest_of_newest {cells : List KeyValue} {kv : KeyValue} (h : Newest cells kv) :
    latest cells = some kv := by
  obtain ⟨before, after, rfl, hbefore, hafter⟩ := h
  have hbest : later (before.foldl later none) kv = some kv := by
    apply later_of_le
    intro b hb
    rcases foldl_later_mem none before with hnone | ⟨other, hother, hsome⟩
    · simp [hnone] at hb
    · cases hb.symm.trans hsome
      exact hbefore b hother
  rw [latest, List.foldl_append, List.foldl_cons, hbest, foldl_later_older hafter]

theorem exists_newest {cells : List KeyValue} (h : cells ≠ []) : ∃ kv, Newest cells kv := by
  induction cells with
  | nil => exact absurd rfl h
  | cons first rest ih =>
    by_cases hrest : rest = []
    · exact ⟨first, [], [], by simp [hrest], by simp, by simp⟩
    · obtain ⟨kv, before, after, rfl, hbefore, hafter⟩ := ih hrest
      by_cases hfirst : first.timestamp ≤ kv.timestamp
      · exact ⟨kv, first :: before, after, rfl, by simpa using ⟨hfirst, hbefore⟩, hafter⟩
      · -- The first is later than the newest of the rest, and so than all of them.
        have hlt : kv.timestamp < first.timestamp := Int64.not_le.1 hfirst
        refine ⟨first, [], _, rfl, by simp, ?_⟩
        intro other hother
        rcases List.mem_append.1 hother with hmem | hmem
        · exact Int64.lt_of_le_of_lt (hbefore other hmem) hlt
        · rcases List.mem_cons.1 hmem with rfl | hmem
          · exact hlt
          · exact Int64.lt_trans (hafter other hmem) hlt

/-- The latest of some versions is the newest of them. -/
theorem latest_eq_some_iff {cells : List KeyValue} {kv : KeyValue} :
    latest cells = some kv ↔ Newest cells kv := by
  refine ⟨?_, latest_of_newest⟩
  intro h
  have hne : cells ≠ [] := by
    rintro rfl
    cases h
  obtain ⟨newest, hnewest⟩ := exists_newest hne
  cases (latest_of_newest hnewest).symm.trans h
  exact hnewest

/-- The latest of several cells is one of them. -/
theorem exists_latest {cells : List KeyValue} (h : cells ≠ []) :
    ∃ kv ∈ cells, latest cells = some kv := by
  obtain ⟨kv, hnewest⟩ := exists_newest h
  exact ⟨kv, hnewest.mem, latest_of_newest hnewest⟩

/-- Of one version at most, the first is also the latest. -/
theorem head?_eq_of_mem_iff {cells : List KeyValue} {only : Option KeyValue}
    (h : ∀ kv, kv ∈ cells ↔ only = some kv) : cells.head? = only ∧ latest cells = only := by
  cases cells with
  | nil =>
    have hnone : only = none := by
      rw [Option.eq_none_iff_forall_ne_some]
      intro kv hkv
      exact absurd ((h kv).2 hkv) List.not_mem_nil
    rw [hnone]
    exact ⟨rfl, rfl⟩
  | cons first rest =>
    obtain ⟨kv, hkv, hlatest⟩ := exists_latest (List.cons_ne_nil first rest)
    have hfirst : only = some first := (h first).1 List.mem_cons_self
    exact ⟨hfirst.symm, hlatest.trans ((h kv).1 hkv).symm⟩

end KeyValue

/-! ### The newest versions of a row -/

namespace RowData

/-- The newest versions of the wanted columns of a row, in the order of the columns. -/
def newest (key : Bytes) (data : RowData) (wanted : Column → Bool) : List KeyValue :=
  (data.entries.filter fun e => wanted e.1).filterMap fun e =>
    e.2.head?.map (KeyValue.ofVersion key e.1)

theorem project_one (key : Bytes) (data : RowData) (columns : List Column) :
    data.project key columns 1 =
      data.newest key fun c => columns.isEmpty || columns.contains c := by
  rw [newest, List.filterMap_eq_flatMap_toList, project]
  apply List.flatMap_congr
  intro e _
  cases e.2 with
  | nil => rfl
  | cons v older => rfl

variable {key : Bytes} {data : RowData} {wanted : Column → Bool}

theorem mem_newest_iff {kv : KeyValue} :
    kv ∈ data.newest key wanted ↔ ∃ c v older, wanted c = true ∧ data.versions c = v :: older ∧
      kv = .ofVersion key c v := by
  simp only [newest, List.mem_filterMap, List.mem_filter]
  constructor
  · rintro ⟨e, ⟨he, hwanted⟩, hkv⟩
    cases hversions : e.2 with
    | nil => simp [hversions] at hkv
    | cons v older =>
      rw [hversions] at hkv
      refine ⟨e.1, v, older, hwanted, ?_, (Option.some.inj hkv).symm⟩
      rw [versions_eq_of_mem he, hversions]
  · rintro ⟨c, v, older, hwanted, hversions, rfl⟩
    have hkey : c ∈ SortedMap.keys data := by
      apply mem_keys_of_versions_ne_nil
      simp [hversions]
    obtain ⟨e, he, rfl⟩ := List.mem_map.1 hkey
    rw [versions_eq_of_mem he] at hversions
    exact ⟨e, ⟨he, hwanted⟩, by simp [hversions]⟩

theorem newest_eq_nil_iff :
    data.newest key wanted = [] ↔ ∀ c, wanted c = true → data.versions c = [] := by
  rw [List.eq_nil_iff_forall_not_mem]
  constructor
  · intro h c hwanted
    cases hversions : data.versions c with
    | nil => rfl
    | cons v older => exact absurd (mem_newest_iff.2 ⟨c, v, older, hwanted, hversions, rfl⟩) (h _)
  · intro h kv hkv
    obtain ⟨c, v, older, hwanted, hversions, -⟩ := mem_newest_iff.1 hkv
    rw [h c hwanted] at hversions
    cases hversions

/-- One version of each column is in store order already. -/
theorem newest_ordered (key : Bytes) (data : RowData) (wanted : Column → Bool) :
    (data.newest key wanted).Pairwise fun a b => StoreResult.inOrder a b := by
  apply List.Pairwise.filterMap _ _ (data.ascending.filter fun e => wanted e.1)
  intro e e' hlt a ha b hb
  obtain ⟨v, -, rfl⟩ := Option.map_eq_some_iff.1 ha
  obtain ⟨w, -, rfl⟩ := Option.map_eq_some_iff.1 hb
  exact StoreResult.inOrder_of_lt key hlt v w

theorem ofCells_newest (key : Bytes) (data : RowData) (wanted : Column → Bool) :
    StoreResult.ofCells key (data.newest key wanted) = ⟨key, data.newest key wanted⟩ := by
  rw [StoreResult.ofCells, List.mergeSort_of_pairwise (newest_ordered key data wanted)]

/-- A wanted column is found with its newest version, if it has one. -/
theorem mem_column_newest_iff {c : Column} (hc : wanted c = true) (kv : KeyValue) :
    kv ∈ (⟨key, data.newest key wanted⟩ : StoreResult).column c.family c.qualifier ↔
      (data.versions c).head?.map (KeyValue.ofVersion key c) = some kv := by
  simp only [StoreResult.column, List.mem_filter, mem_newest_iff, Option.map_eq_some_iff,
    List.head?_eq_some_iff]
  refine ⟨?_, ?_⟩
  · rintro ⟨⟨d, v, older, -, hversions, rfl⟩, hof⟩
    cases KeyValue.isOf_ofVersion.1 hof
    exact ⟨v, ⟨older, hversions⟩, rfl⟩
  · rintro ⟨v, ⟨older, hversions⟩, rfl⟩
    exact ⟨⟨c, v, older, hc, hversions, rfl⟩, KeyValue.isOf_ofVersion.2 rfl⟩

theorem head?_column_newest {c : Column} (hc : wanted c = true) :
    ((⟨key, data.newest key wanted⟩ : StoreResult).column c.family c.qualifier).head? =
      (data.versions c).head?.map (KeyValue.ofVersion key c) :=
  (KeyValue.head?_eq_of_mem_iff (mem_column_newest_iff hc)).1

theorem columnLatest_newest {c : Column} (hc : wanted c = true) :
    (⟨key, data.newest key wanted⟩ : StoreResult).columnLatest c.family c.qualifier =
      (data.versions c).head?.map (KeyValue.ofVersion key c) :=
  (KeyValue.head?_eq_of_mem_iff (mem_column_newest_iff hc)).2

end RowData

/-! ### The rows of a scan -/

namespace Scan

/-- Does the scan ask for the column?  It asks for all when it names none. -/
def asks (s : Scan) (c : Column) : Bool := s.columns.isEmpty || s.columns.contains c

/-- Does the scan return the row?  It lies behind the start, holds one of the columns and passes the
filter with what it holds of them. -/
def returns (s : Scan) (row : Bytes × RowData) : Bool :=
  (s.start.all fun start => (compare start row.1).isLE) &&
    (!(row.2.newest row.1 s.asks).isEmpty &&
      s.filter.all fun f => f.accepts row.1 (row.2.newest row.1 s.asks))

end Scan

namespace Table

theorem scanRow?_eq (s : Scan) (row : Bytes × RowData) :
    scanRow? s row =
      if !(row.2.newest row.1 s.asks).isEmpty &&
          s.filter.all fun f => f.accepts row.1 (row.2.newest row.1 s.asks)
      then some ⟨row.1, row.2.newest row.1 s.asks⟩ else none := by
  have hcells : row.2.project row.1 s.columns 1 = row.2.newest row.1 s.asks :=
    RowData.project_one row.1 row.2 s.columns
  simp only [scanRow?, hcells, RowData.ofCells_newest]
  cases (row.2.newest row.1 s.asks).isEmpty <;>
    cases s.filter.all fun f => f.accepts row.1 (row.2.newest row.1 s.asks) <;> rfl

/-- A scan returns the rows it is after, in key order, with what they hold of its columns. -/
theorem scan_eq (t : Table) (s : Scan) :
    t.scan s =
      (t.entries.filter s.returns).map fun row => ⟨row.1, row.2.newest row.1 s.asks⟩ := by
  rw [scan, List.filterMap_filter, ← List.filterMap_eq_map, List.filterMap_filter]
  apply List.filterMap_congr
  intro row _
  rw [scanRow?_eq, Scan.returns]
  cases s.start.all fun start => (compare start row.1).isLE <;> rfl

end Table

end ColumnConnector
