import ColumnConnector.Proofs.Filter.Evaluation

/-!
# Scans of some of the columns

A store reads the columns of a scan first and filters by what it has read.  A filter that names
only columns of the scan does not notice (`RowData.accepts_newest_among`): the latest version of
each of them is read either way, and a column without versions is missing either way.  So naming
columns leaves out rows without any of them and cells of the others, and nothing else
(`Table.scan_restricted`).
-/

namespace ColumnConnector

namespace RowData

variable {key : Bytes} {data : RowData} {columns : List Column}

/-- The newest versions of some columns are those of all columns that are of one of them. -/
theorem newest_among (key : Bytes) (data : RowData) (columns : List Column) :
    data.newest key (fun c => columns.contains c) =
      (data.newest key fun _ => true).filter fun kv =>
        columns.any fun c => kv.isOf c.family c.qualifier := by
  rw [newest, newest, List.filter_filterMap, List.filterMap_filter, List.filterMap_filter]
  apply List.filterMap_congr
  intro e _
  cases e.2.head? with
  | none => simp
  | some version =>
    have hmember : (columns.any fun c =>
        (KeyValue.ofVersion key e.1 version).isOf c.family c.qualifier) = columns.contains e.1 := by
      rw [Bool.eq_iff_iff, List.any_eq_true, List.contains_iff_mem]
      refine ⟨?_, fun hmem => ⟨e.1, hmem, KeyValue.isOf_ofVersion.2 rfl⟩⟩
      rintro ⟨c, hmem, hof⟩
      rw [KeyValue.isOf_ofVersion.1 hof]
      exact hmem
    rw [if_pos rfl, Option.map_some, Option.filter_some, hmember]

/-- Of a column of the scan nothing is left out. -/
theorem newest_among_column {c : Column} (hc : c ∈ columns) :
    (data.newest key fun c => columns.contains c).filter (·.isOf c.family c.qualifier) =
      (data.newest key fun _ => true).filter (·.isOf c.family c.qualifier) := by
  rw [newest_among, List.filter_filter]
  apply List.filter_congr
  intro kv _
  rw [Bool.and_eq_left_iff_imp]
  intro hof
  exact List.any_eq_true.2 ⟨c, hc, hof⟩

theorem accepts_newest_among {f : Filter} (hnames : ∀ c, f.Names c → c ∈ columns) :
    f.accepts key (data.newest key fun c => columns.contains c) =
      f.accepts key (data.newest key fun _ => true) := by
  apply Filter.accepts_congr
  intro c hc
  rw [newest_among_column (hnames c hc)]

/-- There is something to read when the row holds one of the columns. -/
theorem isEmpty_newest_among :
    (data.newest key fun c => columns.contains c).isEmpty =
      !decide (∃ c ∈ columns, data.versions c ≠ []) := by
  rw [Bool.eq_iff_iff, List.isEmpty_iff, newest_eq_nil_iff]
  simp

end RowData

namespace Scan

variable {start : Option Bytes} {columns : List Column} {filter : Option Filter}

theorem asks_of_ne_nil (hcolumns : columns ≠ []) :
    ({ start, columns, filter } : Scan).asks = fun c => columns.contains c := by
  funext c
  rw [asks, List.isEmpty_eq_false_iff.2 hcolumns, Bool.false_or]

/-- A scan of some columns returns a row exactly if a scan of all columns does and the row holds one
of them. -/
theorem returns_restricted (hcolumns : columns ≠ [])
    (hnames : ∀ f, filter = some f → ∀ c, f.Names c → c ∈ columns) (row : Bytes × RowData) :
    ({ start, columns, filter } : Scan).returns row =
      (decide (∃ c ∈ columns, row.2.versions c ≠ []) && ({ start, filter } : Scan).returns row) := by
  have hverdict : (filter.all fun f =>
        f.accepts row.1 (row.2.newest row.1 fun c => columns.contains c)) =
      filter.all fun f => f.accepts row.1 (row.2.newest row.1 fun _ => true) := by
    cases filter with
    | none => rfl
    | some f => exact RowData.accepts_newest_among (hnames f rfl)
  have hall : ({ start, filter } : Scan).asks = fun _ => true := rfl
  rw [returns, returns, asks_of_ne_nil hcolumns, hall, hverdict, RowData.isEmpty_newest_among,
    Bool.not_not]
  by_cases hholds : ∃ c ∈ columns, row.2.versions c ≠ []
  · obtain ⟨c, -, hversions⟩ := id hholds
    have hsome : (row.2.newest row.1 fun _ => true).isEmpty = false := by
      rw [List.isEmpty_eq_false_iff]
      exact fun hnil => hversions (RowData.newest_eq_nil_iff.1 hnil c rfl)
    rw [decide_eq_true hholds, hsome]
    rfl
  · rw [decide_eq_false hholds, Bool.false_and, Bool.false_and, Bool.and_false]

end Scan

/-- The row with its cells of some columns. -/
def StoreResult.restrict (columns : List Column) (r : StoreResult) : StoreResult :=
  ⟨r.row, r.cells.filter fun kv => columns.any fun c => kv.isOf c.family c.qualifier⟩

namespace Table

theorem versions_of_mem {t : Table} {row : Bytes × RowData} (h : row ∈ t.entries) :
    t.versions row.1 = row.2.versions :=
  versions_of_some (SortedMap.get?_eq_some_iff.2 h)

/-- Of a filter that names only columns of the scan, the rows that a scan of some columns returns
are those that the scan of all columns returns and that hold one of these columns, in the same
order, each with its cells of these columns.  They are the newest versions that the table has of
them. -/
theorem scan_restricted (t : Table) (start : Option Bytes) {columns : List Column}
    {filter : Option Filter} (hcolumns : columns ≠ [])
    (hnames : ∀ f, filter = some f → ∀ c, f.Names c → c ∈ columns) :
    t.scan { start, columns, filter } =
        ((t.scan { start, filter }).filter fun r => ∃ c ∈ columns, t.versions r.row c ≠ []).map
          (StoreResult.restrict columns) ∧
      ∀ r ∈ t.scan { start, columns, filter }, ∀ kv, kv ∈ r.cells ↔
        ∃ c ∈ columns, ∃ newest older, t.versions r.row c = newest :: older ∧
          kv = .ofVersion r.row c newest := by
  have hasks : ({ start, columns, filter } : Scan).asks = fun c => columns.contains c :=
    Scan.asks_of_ne_nil hcolumns
  refine ⟨?_, ?_⟩
  · rw [scan_eq, scan_eq, List.filter_map, List.filter_filter, List.map_map]
    have hrows : t.entries.filter ({ start, columns, filter } : Scan).returns =
        t.entries.filter fun row => (decide (∃ c ∈ columns, t.versions row.1 c ≠ []) &&
          ({ start, filter } : Scan).returns row) := by
      apply List.filter_congr
      intro row hrow
      rw [Scan.returns_restricted hcolumns hnames, versions_of_mem hrow]
    rw [hrows]
    apply List.map_congr_left
    intro row _
    show (⟨row.1, row.2.newest row.1 _⟩ : StoreResult) = ⟨row.1, _⟩
    rw [hasks, RowData.newest_among]
    rfl
  · intro r hr kv
    rw [scan_eq] at hr
    obtain ⟨row, hrow, rfl⟩ := List.mem_map.1 hr
    rw [hasks, RowData.mem_newest_iff, versions_of_mem (List.mem_filter.1 hrow).1]
    simp only [List.contains_iff_mem]
    constructor
    · rintro ⟨c, newest, older, hc, hversions, rfl⟩
      exact ⟨c, hc, newest, older, hversions, rfl⟩
    · rintro ⟨c, hc, newest, older, hversions, rfl⟩
      exact ⟨c, newest, older, hc, hversions, rfl⟩

/-- The second row passes for want of the column, and is left out when only that column is read; of
the first row the other column is left out, and an older version. -/
theorem scan_restricted_two_rows :
    let first : RowData :=
      ⟨[(⟨[102], [97]⟩, [(3, [5]), (1, [9])]), (⟨[102], [98]⟩, [(2, [7])])], by decide⟩
    let second : RowData := ⟨[(⟨[102], [98]⟩, [(4, [8])])], by decide⟩
    let t : Table := ⟨[([1], first), ([2], second)], by decide⟩
    let f : Filter := .any [.column [102] [97] .less [6] false]
    (∀ c, f.Names c → c ∈ [(⟨[102], [97]⟩ : Column)]) ∧
      (t.scan { filter := some f }).map (·.row) = [[1], [2]] ∧
      t.scan { columns := [⟨[102], [97]⟩], filter := some f } =
        [⟨[1], [⟨[1], [102], [97], 3, [5]⟩]⟩] := by
  intro first second t f
  have hnames : ∀ c, f.Names c → c ∈ [(⟨[102], [97]⟩ : Column)] := by
    intro c hc
    cases show (Filter.any [_]).Names c from hc with
    | any hmem htest =>
      cases List.mem_singleton.1 hmem
      cases htest
      exact List.mem_singleton_self _
  obtain ⟨hscan, -⟩ := t.scan_restricted none (List.cons_ne_nil (⟨[102], [97]⟩ : Column) [])
    fun _ hf => Option.some.inj hf ▸ hnames
  rw [hscan, scan_eq]
  exact ⟨hnames, by decide +kernel, by decide +kernel⟩

end Table

end ColumnConnector
