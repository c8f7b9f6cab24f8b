import ColumnConnector.Proofs.Outcomes
import ColumnConnector.Proofs.Row.ReadBack
import ColumnConnector.Proofs.Store.Scanning
import ColumnConnector.Row.Request

/-!
# What a template finds

A scan by a template row looks at the columns that the cells of the template name.  `Row.Qualifies`
says which rows of a table it is after, and `Row.Shows` what it makes of one: the key as the
identifier, and cell by cell the newest version of the column.

A row is lost only by a key or a value that does not decode (`Row.Unreadable`).
-/

namespace ColumnConnector

open Std

/-! ### Columns -/

/-- The cell names the column: both parts are there and neither is empty. -/
def Cell.Names (c : Cell) (column : Column) : Prop :=
  ∃ family qualifier, c.family = some family ∧ c.qualifier = some qualifier ∧ family ≠ "" ∧
    qualifier ≠ "" ∧ column = ⟨Utf8.encode family, Utf8.encode qualifier⟩

theorem Cell.scanColumn?_eq_some_iff {c : Cell} {column : Column} :
    c.scanColumn? = some column ↔ c.Names column := by
  simp only [scanColumn?, Names]
  constructor
  · intro h
    split at h
    · next f q hf hq =>
      split at h
      · cases h
      · next hnonempty =>
        cases h
        have hparts : f ≠ "" ∧ q ≠ "" := by simpa using hnonempty
        exact ⟨f, q, hf, hq, hparts.1, hparts.2, rfl⟩
    · cases h
  · rintro ⟨f, q, hf, hq, hfne, hqne, rfl⟩
    rw [hf, hq]
    simp [hfne, hqne]

theorem Cell.scanColumn?_eq_none_iff {c : Cell} :
    c.scanColumn? = none ↔ ∀ column, ¬ c.Names column := by
  rw [Option.eq_none_iff_forall_ne_some]
  constructor
  · intro h column hnames
    exact h column (scanColumn?_eq_some_iff.2 hnames)
  · intro h column hsome
    exact h column (scanColumn?_eq_some_iff.1 hsome)

theorem Cell.Names.column_eq {c : Cell} {column : Column} (h : c.Names column) :
    c.column = .ok column := by
  obtain ⟨family, qualifier, hfamily, hqualifier, -, -, rfl⟩ := h
  exact column_eq_ok_iff.2 ⟨family, qualifier, hfamily, hqualifier, rfl⟩

namespace Row

/-- The scan looks at the column: some cell of the template names it, or none names any. -/
def Covers (template : Row) (column : Column) : Prop :=
  (∃ c ∈ template.cells, c.Names column) ∨ ∀ c ∈ template.cells, ∀ other, ¬ c.Names other

/-- The request that a scan by the template makes, with its filter. -/
def scanFrom (template : Row) (start : Option String) (filter : Option Filter) : Scan :=
  { start := start.map Utf8.encode, columns := template.cells.filterMap Cell.scanColumn?, filter }

theorem asks_scanFrom {template : Row} {start : Option String} {filter : Option Filter}
    {column : Column} :
    (template.scanFrom start filter).asks column = true ↔ template.Covers column := by
  simp only [Scan.asks, scanFrom, Bool.or_eq_true, List.isEmpty_iff, List.contains_iff_mem,
    List.filterMap_eq_nil_iff, List.mem_filterMap, Cell.scanColumn?_eq_some_iff,
    Cell.scanColumn?_eq_none_iff, Covers]
  exact or_comm

instance (template : Row) (column : Column) : Decidable (template.Covers column) :=
  decidable_of_iff _ (@asks_scanFrom template none none column)

/-! ### Rows -/

/-- The newest versions of the columns that a scan by the template looks at, as a row holds them. -/
def newestOf (template : Row) (row : Bytes × RowData) : List KeyValue :=
  row.2.newest row.1 fun column => template.Covers column

/-- The scan is after the row: its key is not before the start, it holds a column that the template
covers, and the filter accepts the newest versions that it holds of these. -/
structure Qualifies (template : Row) (start : Option String) (filter : Option Filter)
    (row : Bytes × RowData) : Prop where
  reached : ∀ s, start = some s → (compare (Utf8.encode s) row.1).isLE = true
  held : ∃ column, template.Covers column ∧ row.2.versions column ≠ []
  accepted : ∀ f, filter = some f → f.accepts row.1 (template.newestOf row) = true

theorem asks_scanFrom_eq (template : Row) (start : Option String) (filter : Option Filter) :
    (template.scanFrom start filter).asks = fun column => decide (template.Covers column) := by
  funext column
  rw [Bool.eq_iff_iff, asks_scanFrom, decide_eq_true_iff]

theorem returns_scanFrom {template : Row} {start : Option String} {filter : Option Filter}
    {row : Bytes × RowData} :
    (template.scanFrom start filter).returns row = true ↔ template.Qualifies start filter row := by
  have hheld : (template.newestOf row).isEmpty = false ↔
      ∃ column, template.Covers column ∧ row.2.versions column ≠ [] := by
    rw [List.isEmpty_eq_false_iff, newestOf, ne_eq, RowData.newest_eq_nil_iff]
    simp
  simp only [Scan.returns, asks_scanFrom_eq, Bool.and_eq_true, Bool.not_eq_true']
  rw [show (row.2.newest row.1 fun column => decide (template.Covers column)) =
    template.newestOf row from rfl, hheld]
  constructor
  · rintro ⟨hstart, hcolumn, hfilter⟩
    refine ⟨?_, hcolumn, ?_⟩
    · rintro s rfl
      exact hstart
    · rintro f rfl
      exact hfilter
  · intro h
    refine ⟨?_, h.held, ?_⟩
    · cases start with
      | none => rfl
      | some s => exact h.reached s rfl
    · cases filter with
      | none => rfl
      | some f => exact h.accepted f rfl

instance (template : Row) (start : Option String) (filter : Option Filter)
    (row : Bytes × RowData) : Decidable (template.Qualifies start filter row) :=
  decidable_of_iff _ returns_scanFrom

/-- The rows of a table that a scan is after, in key order. -/
def qualifying (template : Row) (start : Option String) (filter : Option Filter) (t : Table) :
    List (Bytes × RowData) :=
  t.entries.filter fun row => template.Qualifies start filter row

theorem scan_scanFrom (template : Row) (start : Option String) (filter : Option Filter)
    (t : Table) :
    t.scan (template.scanFrom start filter) =
      (template.qualifying start filter t).map fun row => ⟨row.1, template.newestOf row⟩ := by
  have hreturns : (template.scanFrom start filter).returns = fun row =>
      decide (template.Qualifies start filter row) := by
    funext row
    rw [Bool.eq_iff_iff, returns_scanFrom, decide_eq_true_iff]
  rw [Table.scan_eq, hreturns, asks_scanFrom_eq]
  rfl

end Row

/-! ### What is shown -/

/-- The cell of a template as a scan fills it in from a row. -/
inductive Cell.Shows (data : RowData) (c : Cell) : Cell → Prop where
  | held {column : Column} {v : Int64 × Bytes} {older : Versions} {w : CellValue} :
      c.Names column → data.versions column = v :: older → c.readType.decode v.2 = .ok w →
      Shows data c { c with value := some w, timestamp := some v.1 }
  | absent {column : Column} : c.Names column → data.versions column = [] →
      Shows data c { c with value := none, timestamp := none }
  | unnamed : (∀ column, ¬ c.Names column) →
      Shows data c { c with value := none, timestamp := none }

/-- The row that a scan by a template makes of a stored row. -/
structure Row.Shows (template : Row) (row : Bytes × RowData) (found : Row) : Prop where
  id : ∃ v, template.keyType.decode row.1 = .ok v ∧ found.id = some v
  rowType : found.rowType = template.rowType
  timestamp : found.timestamp = (template.newestOf row).head?.map KeyValue.timestamp
  cells : List.Forall₂ (Cell.Shows row.2) template.cells found.cells

/-- The key of a stored row or a newest value that the template names does not decode. -/
inductive Row.Unreadable (template : Row) (row : Bytes × RowData) : Prop where
  | key {e : ConversionError} : template.keyType.decode row.1 = .error e → Unreadable template row
  | cell {c : Cell} {column : Column} {v : Int64 × Bytes} {older : Versions}
      {e : ConversionError} : c ∈ template.cells → c.Names column →
      row.2.versions column = v :: older → c.readType.decode v.2 = .error e →
      Unreadable template row

namespace Cell

theorem Names.unique {c : Cell} {column column' : Column} (h : c.Names column)
    (h' : c.Names column') : column = column' := by
  rw [← scanColumn?_eq_some_iff] at h h'
  exact Option.some.inj (h.symm.trans h')

/-- The newest version of the column that the cell names. -/
def newestIn (c : Cell) (row : Bytes × RowData) : Option KeyValue :=
  c.scanColumn?.bind fun column =>
    (row.2.versions column).head?.map (KeyValue.ofVersion row.1 column)

theorem withVersion_eq_ok_iff {c d : Cell} {row : Bytes × RowData} :
    c.withVersion (c.newestIn row) = .ok d ↔ c.Shows row.2 d := by
  cases hcolumn : c.scanColumn? with
  | none =>
    have hnone : c.newestIn row = none := by
      rw [newestIn, hcolumn]
      rfl
    have hunnamed := scanColumn?_eq_none_iff.1 hcolumn
    rw [hnone]
    constructor
    · intro h
      cases h
      exact .unnamed hunnamed
    · intro h
      cases h with
      | held hnames => exact absurd hnames (hunnamed _)
      | absent hnames => exact absurd hnames (hunnamed _)
      | unnamed => rfl
  | some column =>
    have hnames := scanColumn?_eq_some_iff.1 hcolumn
    have hnewest : c.newestIn row =
        (row.2.versions column).head?.map (KeyValue.ofVersion row.1 column) := by
      rw [newestIn, hcolumn]
      rfl
    rw [hnewest]
    cases hversions : row.2.versions column with
    | nil =>
      constructor
      · intro h
        cases h
        exact .absent hnames hversions
      · intro h
        cases h with
        | held hnames' hversions' =>
          cases hnames.unique hnames'
          rw [hversions] at hversions'
          cases hversions'
        | absent => rfl
        | unnamed => rfl
    | cons v older =>
      constructor
      · intro h
        obtain ⟨w, hdecode, hcell⟩ := bind_eq_ok_iff.1 h
        cases hcell
        exact .held hnames hversions hdecode
      · intro h
        cases h with
        | held hnames' hversions' hdecode =>
          cases hnames.unique hnames'
          rw [hversions] at hversions'
          cases hversions'
          exact bind_eq_ok_iff.2 ⟨_, hdecode, rfl⟩
        | absent hnames' hversions' =>
          cases hnames.unique hnames'
          rw [hversions] at hversions'
          cases hversions'
        | unnamed hunnamed => exact absurd hnames (hunnamed column)

/-- A cell can be filled in when the newest version of its column decodes, if there is one. -/
theorem exists_shows_iff {c : Cell} {data : RowData} :
    (∃ d, c.Shows data d) ↔ ∀ column v older, c.Names column →
      data.versions column = v :: older → ∃ w, c.readType.decode v.2 = .ok w := by
  constructor
  · rintro ⟨d, h⟩ column v older hnames hversions
    cases h with
    | held hnames' hversions' hdecode =>
      cases hnames.unique hnames'
      rw [hversions] at hversions'
      cases hversions'
      exact ⟨_, hdecode⟩
    | absent hnames' hversions' =>
      cases hnames.unique hnames'
      rw [hversions] at hversions'
      cases hversions'
    | unnamed hunnamed => exact absurd hnames (hunnamed column)
  · intro h
    cases hcolumn : c.scanColumn? with
    | none => exact ⟨_, .unnamed (scanColumn?_eq_none_iff.1 hcolumn)⟩
    | some column =>
      have hnames := scanColumn?_eq_some_iff.1 hcolumn
      cases hversions : data.versions column with
      | nil => exact ⟨_, .absent hnames hversions⟩
      | cons v older =>
        obtain ⟨w, hdecode⟩ := h column v older hnames hversions
        exact ⟨_, .held hnames hversions hdecode⟩

theorem Shows.sameColumn {c c' d d' : Cell} {data : RowData} (h : c.Shows data d)
    (h' : c'.Shows data d') : d.sameColumn d' = c.sameColumn c' := by
  cases h <;> cases h' <;> rfl

end Cell

namespace Row

variable {template : Row} {row : Bytes × RowData}

/-- Each cell of the template looks for the newest version of its own column. -/
theorem columnLatest_newestOf {c : Cell} (hc : c ∈ template.cells) :
    (c.scanColumn?.bind fun column =>
      (⟨row.1, template.newestOf row⟩ : StoreResult).columnLatest column.family column.qualifier) =
      c.newestIn row := by
  cases hcolumn : c.scanColumn? with
  | none =>
    rw [Cell.newestIn, hcolumn]
    rfl
  | some column =>
    have hcovers : template.Covers column :=
      .inl ⟨c, hc, Cell.scanColumn?_eq_some_iff.1 hcolumn⟩
    rw [Cell.newestIn, hcolumn]
    exact RowData.columnLatest_newest (decide_eq_true hcovers)

/-- The row made of a result, with the cells looked up in the table. -/
theorem ofScan_newestOf (template : Row) (row : Bytes × RowData) :
    template.ofScan ⟨row.1, template.newestOf row⟩ = do
      let id ← template.keyType.decode row.1
      let cells ← template.cells.mapM fun c => c.withVersion (c.newestIn row)
      return cells.foldl addCell {
        id := some id, rowType := template.rowType
        timestamp := (template.newestOf row).head?.map KeyValue.timestamp } := by
  have hcells : (template.cells.mapM fun c => c.withVersion (c.scanColumn?.bind fun column =>
      (⟨row.1, template.newestOf row⟩ : StoreResult).columnLatest column.family
        column.qualifier)) =
      template.cells.mapM fun c => c.withVersion (c.newestIn row) := by
    apply mapM_congr
    intro c hc
    rw [columnLatest_newestOf hc]
  rw [ofScan, hcells]
  rfl

/-- A stored row is found as the template shows it. -/
theorem ofScan_eq_ok_iff (hdistinct : template.cells.Pairwise fun c d => c.sameColumn d = false)
    {found : Row} :
    template.ofScan ⟨row.1, template.newestOf row⟩ = .ok found ↔ template.Shows row found := by
  have hadded : ∀ {r : Row} {cells : List Cell}, r.cells = [] →
      List.Forall₂ (Cell.Shows row.2) template.cells cells →
      cells.foldl addCell r = { r with cells := cells } := by
    intro r cells hnone hshows
    have hcells : cells.Pairwise fun c d => c.sameColumn d = false := by
      apply pairwise_of_forall₂ hshows hdistinct
      intro a b a' b' ha hb hab
      rw [ha.sameColumn hb]
      exact hab
    rw [foldl_addCell r _ hcells, hnone, List.nil_append]
    intro c _
    rw [hasColumnOf, hnone]
    rfl
  rw [ofScan_newestOf, bind_eq_ok_iff]
  constructor
  · rintro ⟨id, hid, h⟩
    obtain ⟨cells, hcells, hfound⟩ := bind_eq_ok_iff.1 h
    have hshows := (mapM_eq_ok_iff.1 hcells).imp fun _ _ => Cell.withVersion_eq_ok_iff.1
    rw [hadded rfl hshows] at hfound
    cases hfound
    exact ⟨⟨id, hid, rfl⟩, rfl, rfl, hshows⟩
  · intro h
    obtain ⟨id, hid, hfound⟩ := h.id
    refine ⟨id, hid, bind_eq_ok_iff.2 ⟨found.cells, mapM_eq_ok_iff.2 ?_, ?_⟩⟩
    · exact h.cells.imp fun _ _ => Cell.withVersion_eq_ok_iff.2
    · rw [hadded rfl h.cells, ← hfound, ← h.rowType, ← h.timestamp]
      rfl

/-- A stored row is lost only by what does not decode. -/
theorem exists_ofScan_error_iff :
    (∃ e, template.ofScan ⟨row.1, template.newestOf row⟩ = .error e) ↔ template.Unreadable row := by
  have hok : (∃ found, template.ofScan ⟨row.1, template.newestOf row⟩ = .ok found) ↔
      (∃ id, template.keyType.decode row.1 = .ok id) ∧
        ∀ c ∈ template.cells, ∃ d, c.Shows row.2 d := by
    simp only [ofScan_newestOf, bind_eq_ok_iff, ← Cell.withVersion_eq_ok_iff,
      ← exists_mapM_ok_iff]
    constructor
    · rintro ⟨found, id, hid, cells, hcells, -⟩
      exact ⟨⟨id, hid⟩, cells, hcells⟩
    · rintro ⟨⟨id, hid⟩, cells, hcells⟩
      exact ⟨_, id, hid, cells, hcells, rfl⟩
  rw [exists_error_iff, hok]
  constructor
  · intro hnot
    by_cases hkey : ∃ id, template.keyType.decode row.1 = .ok id
    · by_contra hread
      apply hnot ⟨hkey, ?_⟩
      intro c hc
      apply Cell.exists_shows_iff.2
      intro column v older hnames hversions
      by_contra hdecode
      obtain ⟨e, he⟩ := exists_error_iff.2 hdecode
      exact hread (.cell hc hnames hversions he)
    · obtain ⟨e, he⟩ := exists_error_iff.2 hkey
      exact .key he
  · rintro hread ⟨⟨id, hid⟩, hcells⟩
    cases hread with
    | key he =>
      rw [hid] at he
      cases he
    | cell hc hnames hversions he =>
      obtain ⟨w, hdecode⟩ := Cell.exists_shows_iff.1 (hcells _ hc) _ _ _ hnames hversions
      rw [hdecode] at he
      cases he

end Row

end ColumnConnector
