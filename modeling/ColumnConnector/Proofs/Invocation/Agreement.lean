import ColumnConnector.Proofs.Invocation.Scans

/-!
# One row by a get and by a scan

A get asks for one row by its key.  A scan that starts at the key of a stored row and is bound to
one row comes to the same row, if the row holds a column that the template names.  Both requests ask
for the same columns, and the store answers them alike (`Table.get_eq_newestOf`).  The answer is read
in two ways, but with one version of a column at most there is no difference
(`Row.ofScan_eq_ofGet`).
-/

namespace ColumnConnector

open Std

/-- The first kept element of an ordered list is the one that nothing kept comes before. -/
theorem take_one_filter {α : Type} {R : α → α → Prop} {p : α → Bool} {l : List α}
    (hl : l.Pairwise R) {a : α} (hmem : a ∈ l) (ha : p a = true)
    (hbefore : ∀ b ∈ l, R b a → p b = false) : (l.filter p).take 1 = [a] := by
  induction l with
  | nil => exact absurd hmem List.not_mem_nil
  | cons b rest ih =>
    obtain ⟨hfirst, hrest⟩ := List.pairwise_cons.1 hl
    rcases List.mem_cons.1 hmem with rfl | hmem
    · rw [List.filter_cons_of_pos ha, List.take_succ_cons, List.take_zero]
    · have hb : p b = false := hbefore b List.mem_cons_self (hfirst a hmem)
      rw [List.filter_cons_of_neg (by simp [hb])]
      exact ih hrest hmem fun c hc => hbefore c (List.mem_cons_of_mem b hc)

namespace Row

/-- Every cell of the row names a column. -/
def Named (r : Row) : Prop := ∀ c ∈ r.cells, ∃ column, c.Names column

variable {template : Row} {row : Bytes × RowData}

/-! ### The requests -/

theorem mapM_column_of_names {cells : List Cell} (h : ∀ c ∈ cells, ∃ column, c.Names column) :
    cells.mapM Cell.column = .ok (cells.filterMap Cell.scanColumn?) := by
  induction cells with
  | nil => rfl
  | cons c rest ih =>
    obtain ⟨⟨column, hnames⟩, hrest⟩ := List.forall_mem_cons.1 h
    rw [List.mapM_cons, hnames.column_eq, ih hrest,
      List.filterMap_cons_some (Cell.scanColumn?_eq_some_iff.2 hnames)]
    rfl

/-- A get by a named row asks for the columns that a scan by the row asks for. -/
theorem Named.toGet (h : template.Named) (hne : template.cells ≠ []) (id : CellValue) :
    { template with id := some id }.toGet =
      .ok { row := id.encode, columns := template.cells.filterMap Cell.scanColumn? } := by
  refine bind_eq_ok_iff.2 ⟨id.encode, keyOfCells_eq_ok_iff.2 ⟨⟨id, rfl, rfl⟩, hne⟩, ?_⟩
  exact bind_eq_ok_iff.2 ⟨_, mapM_column_of_names h, rfl⟩

/-- The store answers the get with what the scan looks at. -/
theorem get_eq_newestOf {t : Table} {g : Get} (hrow : SortedMap.get? t row.1 = some row.2)
    (hheld : template.newestOf row ≠ [])
    (hg : g = { row := row.1, columns := template.cells.filterMap Cell.scanColumn? }) :
    t.get g = ⟨row.1, template.newestOf row⟩ := by
  have hproject : row.2.project row.1 (template.cells.filterMap Cell.scanColumn?) 1 =
      template.newestOf row := by
    rw [RowData.project_one]
    exact congrArg (row.2.newest row.1) (template.asks_scanFrom_eq none none)
  subst hg
  simp only [Table.get, hrow, hproject]
  rw [if_neg (by simpa using hheld)]
  exact RowData.ofCells_newest _ _ _

/-- A scan from the key of a stored row comes to the row first. -/
theorem take_one_qualifying {t : Table} {text : String} (hkey : row.1 = Utf8.encode text)
    (hrow : SortedMap.get? t row.1 = some row.2) (hheld : template.newestOf row ≠ []) :
    (template.qualifying (some text) none t).take 1 = [row] := by
  have hqualifies : template.Qualifies (some text) none row := by
    refine ⟨?_, ?_, ?_⟩
    · rintro s ⟨⟩
      simp [hkey]
    · simpa [newestOf, RowData.newest_eq_nil_iff] using hheld
    · rintro f ⟨⟩
  refine take_one_filter t.ascending (SortedMap.get?_eq_some_iff.1 hrow) ?_ ?_
  · exact decide_eq_true hqualifies
  · intro earlier _ hlt
    refine decide_eq_false ?_
    intro hearlier
    have hreached := hearlier.reached text rfl
    rw [← hkey, OrientedCmp.gt_of_lt hlt] at hreached
    cases hreached

/-! ### The answer -/

theorem foldl_addCell_id (r : Row) (id : Option CellValue) (cells : List Cell) :
    cells.foldl addCell { r with id := id } = { cells.foldl addCell r with id := id } := by
  induction cells generalizing r with
  | nil => rfl
  | cons c rest ih =>
    have hadd : { r with id := id }.addCell c = { r.addCell c with id := id } := by
      show (if r.hasColumnOf c then _ else _) = _
      cases hcolumn : r.hasColumnOf c <;> simp [addCell, hcolumn]
    rw [List.foldl_cons, List.foldl_cons, hadd, ih]

/-- The first version that a get finds of a column is the newest one. -/
theorem head?_column_newestOf {c : Cell} {column : Column} (hc : c ∈ template.cells)
    (hnames : c.Names column) :
    ((⟨row.1, template.newestOf row⟩ : StoreResult).column column.family column.qualifier).head? =
      c.newestIn row := by
  have hcovers : template.Covers column := .inl ⟨c, hc, hnames⟩
  rw [Cell.newestIn, Cell.scanColumn?_eq_some_iff.2 hnames]
  exact RowData.head?_column_newest (decide_eq_true hcovers)

/-- The row made of the answer to a get, with the cells looked up in the table. -/
theorem ofGet_newestOf (h : template.Named) (id : Option CellValue) (row : Bytes × RowData) :
    { template with id := id }.ofGet ⟨row.1, template.newestOf row⟩ = do
      let cells ← template.cells.mapM fun c => c.withVersion (c.newestIn row)
      return cells.foldl addCell {
        id := id, rowType := template.rowType
        timestamp := (template.newestOf row).head?.map KeyValue.timestamp } := by
  show (template.cells.mapM _ >>= _) = _
  congr 1
  apply mapM_congr
  intro c hc
  obtain ⟨column, hnames⟩ := h c hc
  rw [hnames.column_eq]
  exact congrArg c.withVersion (head?_column_newestOf hc hnames)

/-- The same answer is read alike, but for the identifier. -/
theorem ofScan_eq_ofGet (h : template.Named) (id : Option CellValue) {v : CellValue}
    (hkey : template.keyType.decode row.1 = .ok v) :
    template.ofScan ⟨row.1, template.newestOf row⟩ =
      (fun found => { found with id := some v }) <$>
        { template with id := id }.ofGet ⟨row.1, template.newestOf row⟩ := by
  rw [ofScan_newestOf, ofGet_newestOf h, hkey]
  cases template.cells.mapM fun c => c.withVersion (c.newestIn row) with
  | error e => rfl
  | ok cells =>
    let r : Row := {
      id := id, rowType := template.rowType
      timestamp := (template.newestOf row).head?.map KeyValue.timestamp }
    exact congrArg Except.ok (foldl_addCell_id r (some v) cells)

end Row

namespace Work

/-- A scan from the key of a stored row, bound to one row and without filters, agrees with the get
of the row, if all cells of the template name columns and the row holds one of these.  Both fail
with the same error, or both find the same row, whose identifier the scan reads from the key.  The
session is as before. -/
theorem scanRows_agrees_getRow {template : Row} {text : String} {id v : CellValue} {data : RowData}
    {s : Session Store} (hnamed : template.Named) (hid : id.encode = Utf8.encode text)
    (hrow : SortedMap.get? (s.connection.table s.handle.table) (Utf8.encode text) = some data)
    (hheld : ∃ c ∈ template.cells, ∃ column, c.Names column ∧ data.versions column ≠ [])
    (hkey : template.keyType.decode (Utf8.encode text) = .ok v) :
    ∃ outcome : Except ConnectorError Row,
      getRow { template with id := some id } s = ofExcept outcome s ∧
      scanRows [] (some text) 1 template s =
        ofExcept ((fun found => [{ found with id := some v }]) <$> outcome) s := by
  let row : Bytes × RowData := (Utf8.encode text, data)
  have hrow : SortedMap.get? (s.connection.table s.handle.table) row.1 = some row.2 := hrow
  obtain ⟨c, hc, column, hnames, hversions⟩ := hheld
  have hnewest : template.newestOf row ≠ [] := by
    rw [Row.newestOf, ne_eq, RowData.newest_eq_nil_iff]
    intro hnone
    exact hversions (hnone column (decide_eq_true (.inl ⟨c, hc, hnames⟩)))
  -- Both requests come to the same versions of the row, and only the identifier is read apart.
  have hfound : { template with id := some id }.found s.connection s.handle =
      ({ template with id := some id }.ofGet ⟨row.1, template.newestOf row⟩).mapError
        .conversion := by
    rw [Row.found, hnamed.toGet (List.ne_nil_of_mem hc), hid]
    show (Row.ofGet _ ((s.connection.table s.handle.table).get _)).mapError _ = _
    rw [Row.get_eq_newestOf hrow hnewest rfl]
  have hscanned : template.scanned s.connection s.handle [] (some text) 1 =
      (template.ofScan ⟨row.1, template.newestOf row⟩).mapError .conversion >>=
        fun found => .ok [found] := by
    have hbind : FilterTemplate.bindAll [] template = .ok none := rfl
    have hkey : row.1 = Utf8.encode text := rfl
    rw [Row.scanned_of_bound hbind, Row.take_one_qualifying hkey hrow hnewest]
    rfl
  refine ⟨_, getRow_comesTo s _, ?_⟩
  have hrun := scanRows_comesTo s [] (some text) 1 template
  rw [hscanned, Row.ofScan_eq_ofGet hnamed (some id) hkey] at hrun
  rw [hfound]
  refine hrun.trans ?_
  cases { template with id := some id }.ofGet ⟨row.1, template.newestOf row⟩ <;> rfl

/-- A column that the template names twice, with two declared types, is read as the first of them
by both requests. -/
theorem scanRows_agrees_getRow_repeated :
    let puts : List Put := [
      ⟨[97], [(⟨[102], [113]⟩, [0, 0, 0, 9])]⟩, ⟨[98], [(⟨[102], [113]⟩, [0, 0, 0, 7])]⟩]
    let s : Session Store :=
      ⟨Store.flush (.createTable {} "t") { table := "t", pending := puts }, { table := "t" }⟩
    let c : Cell := { family := some "f", qualifier := some "q", valueType := some .int32 }
    let template : Row := { cells := [c, { c with valueType := some .bytes }] }
    let found : Row := {
      id := some (.utf8 "b"), timestamp := some 2
      cells := [{ c with value := some (.int32 7), timestamp := some 2 }] }
    getRow { template with id := some (.utf8 "b") } s = .ok found s ∧
      scanRows [] (some "b") 1 template s = .ok [found] s := by
  intro puts s c template found
  have hc : c.Names ⟨[102], [113]⟩ := ⟨"f", "q", rfl, rfl, by decide, by decide, rfl⟩
  have hnamed : template.Named := by
    intro d hd
    rcases List.mem_pair.1 hd with rfl | rfl
    · exact ⟨_, hc⟩
    · exact ⟨_, hc⟩
  let data : RowData := SortedMap.insert ∅ ⟨[102], [113]⟩ [(2, [0, 0, 0, 7])]
  have hrow : SortedMap.get? (s.connection.table s.handle.table) (Utf8.encode "b") = some data := by
    decide +kernel
  have hheld : ∃ d ∈ template.cells, ∃ column, d.Names column ∧ data.versions column ≠ [] :=
    ⟨c, List.mem_cons_self, _, hc, by decide⟩
  have hid : (CellValue.utf8 "b").encode = Utf8.encode "b" := rfl
  have hkey : template.keyType.decode (Utf8.encode "b") = .ok (.utf8 "b") := rfl
  obtain ⟨outcome, hget, hscan⟩ := scanRows_agrees_getRow hnamed hid hrow hheld hkey
  have hread : { template with id := some (.utf8 "b") }.found s.connection s.handle =
      .ok found := by
    decide +kernel
  have hfound : getRow { template with id := some (.utf8 "b") } s = .ok found s := by
    refine (getRow_comesTo s _).trans ?_
    rw [hread]
    rfl
  refine ⟨hfound, ?_⟩
  rw [hfound] at hget
  cases outcome with
  | error e => cases hget
  | ok found' =>
    cases hget
    exact hscan

end Work

end ColumnConnector
