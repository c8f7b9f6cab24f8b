import ColumnConnector.Proofs.Invocation.Effects
import ColumnConnector.Proofs.Row.Request
import ColumnConnector.Proofs.Store.Newest
import ColumnConnector.Proofs.Value.RoundTrip

/-!
# Rows read back

A typed row has a key and cells for different columns, each with a value that takes its declared
type, or a text where no type is declared.  Once the put of such a row is what the store holds
newest, a get by the row finds the row itself, every value in its declared type
(`Row.found_readBack`).

Whatever the store holds, a get with a key and named columns fails only on a newest version that
does not decode (`Row.exists_found_iff`), and what it finds does not depend on the values that the
row comes with (`Row.found_bare`).
-/

namespace ColumnConnector

/-- The value that a cell is written with and read back as. -/
inductive Cell.Reads (c : Cell) : CellValue → Prop where
  | text {s : String} : c.value = some (.utf8 s) → c.valueType = none → c.Reads (.utf8 s)
  | declared {v w : CellValue} {t : ValueType} :
      c.value = some v → c.valueType = some t → v.coerce t = .ok w → c.Reads w

/-- A row that can be written and read back. -/
structure Row.Typed (r : Row) : Prop where
  key : ∃ v, r.id = some v ∧ v.encode ≠ []
  nonempty : r.cells ≠ []
  columns : r.cells.Pairwise fun c d => c.sameColumn d = false
  named : ∀ c ∈ r.cells, ∃ family qualifier, c.family = some family ∧ c.qualifier = some qualifier
  values : ∀ c ∈ r.cells, ∃ w, c.Reads w

/-- Typed rows with different keys. -/
structure RowBatch.Typed (batch : RowBatch) : Prop where
  rows : ∀ r ∈ batch, r.Typed
  keys : batch.Pairwise fun r s => ∀ key, r.HasKey key → ¬ s.HasKey key

/-- The cell `d` is `c` as it was written at a time. -/
structure Cell.ReadBack (time : Int64) (c d : Cell) : Prop where
  family : d.family = c.family
  qualifier : d.qualifier = c.qualifier
  valueType : d.valueType = c.valueType
  value : ∃ w, c.Reads w ∧ d.value = some w
  timestamp : d.timestamp = some time

/-- The row `found` is `r` as it was written at a time. -/
structure Row.ReadBack (time : Int64) (r found : Row) : Prop where
  id : found.id = r.id
  rowType : found.rowType = r.rowType
  timestamp : found.timestamp = some time
  cells : List.Forall₂ (Cell.ReadBack time) r.cells found.cells

/-- The get of everything that a put writes. -/
def Put.asGet (p : Put) : Get := { row := p.row, columns := p.cells.map Prod.fst }

/-- The cells of a put are the newest versions of their columns, all of one time. -/
def Put.NewestIn (p : Put) (s : Store) (table : String) (time : Int64) : Prop :=
  ∀ cell ∈ p.cells, ∃ older, s.versions table p.row cell.1 = (time, cell.2) :: older

namespace Cell

/-- The value is stored in its own form, and the cell reads that form as the value. -/
theorem Reads.stores {c : Cell} {w : CellValue} (h : c.Reads w) :
    c.Stores w.encode ∧ c.readType.decode w.encode = .ok w := by
  unfold readType
  cases h with
  | @text s hv ht =>
    refine ⟨.plain hv ht, ?_⟩
    rw [ht]
    exact ValueType.decode_encode (.utf8 s)
  | @declared v w t hv ht hw =>
    refine ⟨.declared hv ht hw, ?_⟩
    rw [ht, ← CellValue.type_of_coerce hw]
    exact ValueType.decode_encode w

/-- A cell is read back as one value only. -/
theorem Reads.unique {c : Cell} {w w' : CellValue} (h : c.Reads w) (h' : c.Reads w') : w = w' := by
  cases h with
  | text hv ht =>
    cases h' with
    | text hv' _ => exact Option.some.inj (hv.symm.trans hv')
    | declared _ ht' _ => exact absurd (ht.symm.trans ht') (Option.some_ne_none _).symm
  | declared hv ht hw =>
    cases h' with
    | text _ ht' => exact absurd (ht.symm.trans ht') (Option.some_ne_none _)
    | declared hv' ht' hw' =>
      cases Option.some.inj (hv.symm.trans hv')
      cases Option.some.inj (ht.symm.trans ht')
      exact Except.ok.inj (hw.symm.trans hw')

theorem Stores.unique {c : Cell} {raw raw' : Bytes} (h : c.Stores raw) (h' : c.Stores raw') :
    raw = raw' := by
  have hok := stored_eq_ok_iff.2 h
  rw [stored_eq_ok_iff.2 h'] at hok
  exact (Except.ok.inj hok).symm

/-- Cells of different names are written to different columns. -/
theorem Writes.column_ne {c d : Cell} {written written' : Column × Bytes}
    (hc : c.Writes written) (hd : d.Writes written') (h : c.sameColumn d = false) :
    written.1 ≠ written'.1 := by
  obtain ⟨f, q, hf, hq, hcolumn⟩ := hc.column
  obtain ⟨f', q', hf', hq', hcolumn'⟩ := hd.column
  intro heq
  rw [hcolumn, hcolumn', Column.mk.injEq] at heq
  rw [sameColumn, hf, hf', hq, hq', Utf8.encode_injective heq.1,
    Utf8.encode_injective heq.2] at h
  simp at h

/-- A written cell is read back from its newest version. -/
theorem Writes.readBack {c : Cell} {written : Column × Bytes} (hc : c.Writes written)
    {w : CellValue} (hw : c.Reads w) (time : Int64) (key : Bytes) :
    ∃ d, c.withVersion (some (.ofVersion key written.1 (time, written.2))) = .ok d ∧
      c.ReadBack time d := by
  obtain ⟨hstores, hdecode⟩ := hw.stores
  rw [Stores.unique hstores hc.stored] at hdecode
  refine ⟨{ c with value := some w, timestamp := some time }, ?_, rfl, rfl, rfl, ⟨w, hw, rfl⟩, rfl⟩
  exact bind_eq_ok_iff.2 ⟨w, hdecode, rfl⟩

end Cell

namespace Row

/-- Cells of different columns are all added. -/
theorem foldl_addCell (r : Row) {cells : List Cell}
    (hnew : ∀ c ∈ cells, r.hasColumnOf c = false)
    (hcells : cells.Pairwise fun c d => c.sameColumn d = false) :
    cells.foldl addCell r = { r with cells := r.cells ++ cells } := by
  induction cells generalizing r with
  | nil => simp
  | cons c rest ih =>
    obtain ⟨hfirst, hrest⟩ := List.pairwise_cons.1 hcells
    have hadd : r.addCell c = { r with cells := r.cells ++ [c] } := by
      rw [addCell, hnew c List.mem_cons_self]
      rfl
    rw [List.foldl_cons, hadd, ih _ _ hrest]
    · simp
    · intro d hd
      have hold := hnew d (List.mem_cons_of_mem c hd)
      unfold hasColumnOf at hold ⊢
      rw [List.any_append, hold, List.any_cons, hfirst d hd]
      rfl

/-- The get by a row asks for the columns that its put writes. -/
theorem Writes.toGet {r : Row} {p : Put} (h : r.Writes p) : r.toGet = .ok p.asGet := by
  unfold Row.toGet
  refine bind_eq_ok_iff.2 ⟨p.row, keyOfCells_eq_ok_iff.2 ⟨h.key, h.nonempty⟩, ?_⟩
  refine bind_eq_ok_iff.2 ⟨p.cells.map Prod.fst, mapM_eq_ok_iff.2 ?_, rfl⟩
  rw [List.forall₂_map_right_iff]
  exact h.cells.imp fun _ _ hc => Cell.column_eq_ok_iff.2 hc.column

section Found

variable {r : Row} {p : Put} {s : Store} {h : Handle} {time : Int64}

/-- Each cell of the row is read back from what the get of the row answers. -/
theorem Writes.readBack (hw : r.Writes p) (ht : r.Typed) (hn : p.NewestIn s h.table time)
    {c : Cell} (hc : c ∈ r.cells) :
    ∃ d, c.withVersion (match c.column with
        | .ok column => ((s.get h p.asGet).column column.family column.qualifier).head?
        | .error _ => none) = .ok d ∧ c.ReadBack time d := by
  obtain ⟨cell, hcell, hwrites⟩ := exists_mem_of_forall₂ hw.cells hc
  obtain ⟨w, hreads⟩ := ht.values c hc
  obtain ⟨older, hversions⟩ := hn cell hcell
  have hask : p.asGet.Asks cell.1 := .inr (List.mem_map_of_mem hcell)
  have hfound := (s.table h.table).get_column rfl hask hversions
  rw [Cell.column_eq_ok_iff.2 hwrites.column]
  dsimp only
  rw [show s.get h p.asGet = (s.table h.table).get p.asGet from rfl, hfound]
  exact hwrites.readBack hreads time p.row

/-- Whatever cell the answer has first, it carries the time of the put. -/
theorem Writes.timestamp_eq (hw : r.Writes p) (hn : p.NewestIn s h.table time) :
    (s.get h p.asGet).timestamp = some time := by
  obtain ⟨c, hc⟩ := List.exists_mem_of_ne_nil r.cells hw.nonempty
  obtain ⟨cell, hcell, -⟩ := exists_mem_of_forall₂ hw.cells hc
  obtain ⟨older, hversions⟩ := hn cell hcell
  refine (s.table h.table).get_timestamp rfl ?_ ?_
  · have hmem : KeyValue.ofVersion p.row cell.1 (time, cell.2) ∈ (s.get h p.asGet).cells :=
      ((s.table h.table).mem_get_iff rfl _).2
        ⟨cell.1, _, older, .inr (List.mem_map_of_mem hcell), hversions, rfl⟩
    exact List.ne_nil_of_mem hmem
  · intro column v older' hask hcolumn
    rcases hask with hnone | hmem
    · exact absurd (List.map_eq_nil_iff.1 hnone) (List.ne_nil_of_mem hcell)
    · obtain ⟨other, hother, rfl⟩ := List.mem_map.1 hmem
      obtain ⟨older'', hnewest⟩ := hn other hother
      have heq : v :: older' = (time, other.2) :: older'' := hcolumn.symm.trans hnewest
      rw [(List.cons.inj heq).1]

/-- A typed row is found as it was written, if its put is what the store holds newest. -/
theorem found_readBack (ht : r.Typed) (hw : r.Writes p) (hn : p.NewestIn s h.table time) :
    ∃ found, r.found s h = .ok found ∧ r.ReadBack time found := by
  obtain ⟨cells, hboth⟩ := exists_forall₂ fun c hc => hw.readBack ht hn (c := c) hc
  have hread : List.Forall₂ (Cell.ReadBack time) r.cells cells := hboth.imp fun _ _ hb => hb.2
  have hdistinct : cells.Pairwise fun c d => c.sameColumn d = false := by
    refine pairwise_of_forall₂ hread ht.columns fun a b a' b' ha hb hab => ?_
    rw [Cell.sameColumn, ha.family, ha.qualifier, hb.family, hb.qualifier]
    exact hab
  refine ⟨{ id := r.id, rowType := r.rowType, timestamp := some time, cells }, ?_, rfl, rfl, rfl,
    hread⟩
  unfold found
  refine bind_eq_ok_iff.2 ⟨p.asGet, hw.toGet, mapError_eq_ok_iff.2 ?_⟩
  unfold ofGet
  refine bind_eq_ok_iff.2 ⟨cells, mapM_eq_ok_iff.2 (hboth.imp fun _ _ hb => hb.1), ?_⟩
  rw [hw.timestamp_eq hn, foldl_addCell _ (fun c _ => rfl) hdistinct]
  rfl

end Found

end Row

/-! ### What a get needs -/

theorem Cell.exists_withVersion_iff {c : Cell} {version : Option KeyValue} :
    (∃ d, c.withVersion version = .ok d) ↔
      ∀ kv, version = some kv → ∃ w, c.readType.decode kv.value = .ok w := by
  cases version with
  | none =>
    constructor
    · intro _ kv hkv
      cases hkv
    · intro _
      exact ⟨_, rfl⟩
  | some kv =>
    constructor
    · rintro ⟨d, h⟩ kv' hkv'
      obtain ⟨w, hdecode, -⟩ := bind_eq_ok_iff.1 h
      cases hkv'
      exact ⟨w, hdecode⟩
    · intro h
      obtain ⟨w, hdecode⟩ := h kv rfl
      exact ⟨_, bind_eq_ok_iff.2 ⟨w, hdecode, rfl⟩⟩

/-- The row has what a get is made of: a key, and cells that all have a column. -/
structure Row.Gettable (r : Row) : Prop where
  key : ∃ key, r.HasKey key
  nonempty : r.cells ≠ []
  named : ∀ c ∈ r.cells, ∃ column, c.column = .ok column

/-- The row asks for the column. -/
def Row.Requests (r : Row) (column : Column) : Prop := ∃ c ∈ r.cells, c.column = .ok column

/-- The newest version of the column of a cell. -/
def Cell.newestAt (versions : Column → Versions) (key : Bytes) (c : Cell) : Option KeyValue :=
  match c.column with
  | .ok column => (versions column).head?.map (KeyValue.ofVersion key column)
  | .error _ => none

namespace Row

variable {r : Row} {s : Store} {h : Handle} {key : Bytes}

/-- The get by such a row asks for the columns of its cells. -/
theorem Gettable.exists_toGet (hr : r.Gettable) (hkey : r.HasKey key) :
    ∃ columns, r.toGet = .ok { row := key, columns } ∧
      ({ row := key, columns } : Get).Asks = r.Requests := by
  obtain ⟨columns, hcolumns⟩ := exists_mapM_ok_iff.2 hr.named
  have hcells := mapM_eq_ok_iff.1 hcolumns
  refine ⟨columns, ?_, ?_⟩
  · exact bind_eq_ok_iff.2 ⟨key, keyOfCells_eq_ok_iff.2 ⟨hkey, hr.nonempty⟩,
      bind_eq_ok_iff.2 ⟨columns, hcolumns, rfl⟩⟩
  · funext column
    apply propext
    constructor
    · rintro (hnone | hmem)
      · rw [show columns = [] from hnone, List.forall₂_nil_right_iff] at hcells
        exact absurd hcells hr.nonempty
      · exact exists_mem_of_forall₂ hcells.flip hmem
    · rintro ⟨c, hc, hcolumn⟩
      obtain ⟨column', hmem, hcolumn'⟩ := exists_mem_of_forall₂ hcells hc
      cases hcolumn.symm.trans hcolumn'
      exact .inr hmem

/-- What such a row finds, with the cells looked up in the store. -/
theorem Gettable.exists_found_eq (hr : r.Gettable) (hkey : r.HasKey key) :
    ∃ time, RowTime (s.versions h.table key) r.Requests time ∧
      r.found s h = Except.mapError .conversion (do
        let cells ← r.cells.mapM fun c => c.withVersion (c.newestAt (s.versions h.table key) key)
        return cells.foldl addCell { id := r.id, rowType := r.rowType, timestamp := time }) := by
  obtain ⟨columns, htoGet, hasks⟩ := hr.exists_toGet hkey
  let g : Get := { row := key, columns }
  have htime := (s.table h.table).get_rowTime (g := g) rfl
  rw [show g.Asks = r.Requests from hasks] at htime
  refine ⟨_, htime, ?_⟩
  rw [found, htoGet]
  show Except.mapError ConnectorError.conversion (r.cells.mapM _ >>= _) = _
  congr 2
  apply mapM_congr
  intro c hc
  obtain ⟨column, hcolumn⟩ := hr.named c hc
  have hask : g.Asks column := by
    rw [show g.Asks = r.Requests from hasks]
    exact ⟨c, hc, hcolumn⟩
  rw [Cell.newestAt, hcolumn]
  exact congrArg c.withVersion ((s.table h.table).head?_column_get rfl hask)

/-- Such a row is found when the newest version of each of its columns, if there is one, decodes. -/
theorem exists_found_iff (hr : r.Gettable) (hkey : r.HasKey key) :
    (∃ found, r.found s h = .ok found) ↔ ∀ c ∈ r.cells, ∀ column v older,
      c.column = .ok column → s.versions h.table key column = v :: older →
      ∃ w, c.readType.decode v.2 = .ok w := by
  obtain ⟨time, -, hfound⟩ := hr.exists_found_eq (s := s) (h := h) hkey
  have hread : (∃ found, r.found s h = .ok found) ↔ ∀ c ∈ r.cells, ∃ d,
      c.withVersion (c.newestAt (s.versions h.table key) key) = .ok d := by
    rw [hfound, ← exists_mapM_ok_iff]
    simp only [mapError_eq_ok_iff, bind_eq_ok_iff]
    constructor
    · rintro ⟨found, cells, hcells, -⟩
      exact ⟨cells, hcells⟩
    · rintro ⟨cells, hcells⟩
      exact ⟨_, cells, hcells, rfl⟩
  rw [hread]
  apply forall₂_congr
  intro c hc
  obtain ⟨column, hcolumn⟩ := hr.named c hc
  rw [Cell.exists_withVersion_iff, Cell.newestAt, hcolumn]
  constructor
  · intro hdecode column' v older hcolumn' hversions
    cases hcolumn'
    exact hdecode (.ofVersion key column v) (by simp [hversions])
  · intro hdecode kv hkv
    obtain ⟨v, hv, rfl⟩ := Option.map_eq_some_iff.1 hkv
    obtain ⟨older, hversions⟩ := List.head?_eq_some_iff.1 hv
    exact hdecode column v older rfl hversions

end Row

/-- The cell as a template for a get. -/
def Cell.bare (c : Cell) : Cell := { c with value := none, timestamp := none }

namespace Row

/-- The row as a template for a get. -/
def bare (r : Row) : Row := { r with cells := r.cells.map Cell.bare }

theorem mapM_cells_bare {ε β : Type} (r : Row) {f : Cell → Except ε β} (hf : ∀ c, f c.bare = f c) :
    r.bare.cells.mapM f = r.cells.mapM f := by
  show (r.cells.map Cell.bare).mapM f = _
  rw [List.mapM_map]
  exact mapM_congr fun c _ => hf c

theorem toGet_bare (r : Row) : r.bare.toGet = r.toGet := by
  have hkey : r.bare.keyOfCells = r.keyOfCells := by
    show (r.key >>= fun key => if (r.cells.map Cell.bare).isEmpty then _ else _) = _
    rw [List.isEmpty_map]
    rfl
  rw [toGet, toGet, hkey, mapM_cells_bare r fun _ => rfl]

/-- A get does not look at the values that its rows come with. -/
theorem found_bare (s : Store) (h : Handle) (r : Row) : r.bare.found s h = r.found s h := by
  have hofGet : ∀ found, r.bare.ofGet found = r.ofGet found := by
    intro found
    rw [ofGet, ofGet, mapM_cells_bare r fun _ => rfl]
    rfl
  simp only [found, toGet_bare, hofGet]

end Row

end ColumnConnector
