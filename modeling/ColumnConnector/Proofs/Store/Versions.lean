import ColumnConnector.Proofs.SortedMap
import ColumnConnector.Store.Basic
import Mathlib.Logic.Function.Iterate

/-!
# The versions that a store holds

A table is looked at through its versions: for every key and every column a list of stamped values,
the newest first.  Writing a put is one `prepend` for each of its cells, under one timestamp
(`versions_write`), and flushing a handle is one such put after the other, under the timestamps that
the clock gives out (`versions_flush`).

A deletion removes the rows of its keys (`get?_delete`); rows of other keys and other tables keep
everything.
-/

namespace ColumnConnector

/-- The versions held of a column of one row. -/
def RowData.versions (data : RowData) (column : Column) : Versions := (data.get? column).getD []

/-- The versions held of a column, none when the row is not there. -/
def Table.versions (t : Table) (key : Bytes) (column : Column) : Versions :=
  (SortedMap.get? t key).elim [] fun data => data.versions column

/-- The versions held in a store. -/
def Store.versions (s : Store) (table : String) (key : Bytes) (column : Column) : Versions :=
  (s.table table).versions key column

/-- The versions of every column of every row. -/
abbrev View := Bytes → Column → Versions

namespace View

/-- Put a version in front of those of its column, and forget those beyond the limit. -/
def prepend (limit : Nat) (time : Int64) (key : Bytes) (v : View) (cell : Column × Bytes) : View :=
  fun key' column =>
    if key' = key ∧ column = cell.1 then ((time, cell.2) :: v key' column).take limit
    else v key' column

/-- All cells of a put, in order, under one timestamp. -/
def put (limit : Nat) (v : View) (stamped : Put × Int64) : View :=
  stamped.1.cells.foldl (prepend limit stamped.2 stamped.1.row) v

/-- Several puts, one after the other, each under its own timestamp. -/
def putAll (limit : Nat) (v : View) (stamped : List (Put × Int64)) : View :=
  stamped.foldl (put limit) v

end View

/-- The next `n` timestamps of a clock. -/
def Clock.stamps : Clock → Nat → List Int64
  | _, 0 => []
  | c, n + 1 => c.next :: c.tick.stamps n

theorem Clock.length_stamps (c : Clock) (n : Nat) : (c.stamps n).length = n := by
  induction n generalizing c with
  | zero => rfl
  | succ n ih => simp [stamps, ih]

/-! ### Writing cells -/

theorem RowData.versions_writeCell (limit : Nat) (time : Int64) (data : RowData)
    (cell : Column × Bytes) (column : Column) :
    (RowData.writeCell limit time data cell).versions column =
      if column = cell.1 then ((time, cell.2) :: data.versions column).take limit
      else data.versions column := by
  unfold RowData.writeCell RowData.versions
  rw [SortedMap.get?_upsert_eq]
  by_cases h : column = cell.1 <;> simp [h]

theorem RowData.versions_writeCells (limit : Nat) (time : Int64) (key : Bytes) (v : View)
    (data : RowData) (cells : List (Column × Bytes)) (h : v key = data.versions) :
    (RowData.writeCells limit time data cells).versions =
      cells.foldl (View.prepend limit time key) v key := by
  induction cells generalizing data v with
  | nil => exact h.symm
  | cons cell rest ih =>
    refine ih (View.prepend limit time key v cell) _ ?_
    funext column
    rw [RowData.versions_writeCell]
    simp [View.prepend, h]

theorem View.foldl_prepend_other (limit : Nat) (time : Int64) (key key' : Bytes) (v : View)
    (cells : List (Column × Bytes)) (h : key' ≠ key) :
    cells.foldl (View.prepend limit time key) v key' = v key' := by
  induction cells generalizing v with
  | nil => rfl
  | cons cell rest ih =>
    rw [List.foldl_cons, ih]
    funext column
    simp [View.prepend, h]

/-! ### Tables -/

namespace Table

theorem get?_write_other (limit : Nat) (time : Int64) (t : Table) (p : Put) {key : Bytes}
    (h : key ≠ p.row) : SortedMap.get? (t.write limit time p) key = SortedMap.get? t key :=
  SortedMap.get?_upsert_of_ne t _ h

theorem contains_write (limit : Nat) (time : Int64) (t : Table) (p : Put) (key : Bytes) :
    SortedMap.contains (t.write limit time p) key = (SortedMap.contains t key || key == p.row) := by
  unfold SortedMap.contains write
  rw [SortedMap.get?_upsert_eq]
  by_cases h : key = p.row <;> simp [h]

/-- Writing a put prepends its cells. -/
theorem versions_write (limit : Nat) (time : Int64) (t : Table) (p : Put) :
    (t.write limit time p).versions = View.put limit t.versions (p, time) := by
  funext key
  by_cases h : key = p.row
  · subst h
    have hget : SortedMap.get? (t.write limit time p) p.row =
        some (RowData.writeCells limit time ((SortedMap.get? t p.row).getD ∅) p.cells) :=
      SortedMap.get?_upsert_self t _ _
    have hold : t.versions p.row = RowData.versions ((SortedMap.get? t p.row).getD ∅) := by
      funext column
      unfold versions
      cases SortedMap.get? t p.row <;> rfl
    calc (t.write limit time p).versions p.row
        = (RowData.writeCells limit time ((SortedMap.get? t p.row).getD ∅) p.cells).versions := by
          funext column
          simp only [versions, hget, Option.elim]
      _ = View.put limit t.versions (p, time) p.row :=
          RowData.versions_writeCells limit time p.row t.versions _ p.cells hold
  · rw [View.put, View.foldl_prepend_other _ _ _ _ _ _ h]
    funext column
    unfold versions
    rw [get?_write_other limit time t p h]

theorem get?_delete (t : Table) (keys : List Bytes) (key : Bytes) :
    SortedMap.get? (t.delete keys) key = if key ∈ keys then none else SortedMap.get? t key := by
  unfold delete
  induction keys generalizing t with
  | nil => rfl
  | cons k rest ih =>
    rw [List.foldl_cons, ih, SortedMap.get?_erase]
    by_cases hk : key = k <;> by_cases hr : key ∈ rest <;> simp [hk, hr]

theorem versions_delete (t : Table) (keys : List Bytes) (key : Bytes) (column : Column) :
    (t.delete keys).versions key column = if key ∈ keys then [] else t.versions key column := by
  rw [versions, get?_delete]
  split <;> rfl

end Table

/-! ### Stores -/

namespace Store

theorem table_eq_of_get? {s s' : Store} {name name' : String}
    (h : s'.tables.get? name' = s.tables.get? name) : s'.table name' = s.table name := by
  unfold table
  rw [h]

theorem get?_setTable (s : Store) (name : String) (f : Table → Table) (other : String) :
    (s.setTable name f).tables.get? other =
      if other = name then some (f (s.table name)) else s.tables.get? other :=
  SortedMap.get?_upsert_eq s.tables name other _

theorem table_setTable (s : Store) (name : String) (f : Table → Table) (other : String) :
    (s.setTable name f).table other = if other = name then f (s.table name) else s.table other := by
  rw [table, get?_setTable]
  by_cases h : other = name <;> simp [h, table]

theorem table_createTable (s : Store) (name other : String) :
    (s.createTable name).table other = s.table other := by
  unfold table createTable
  rw [SortedMap.get?_upsert_eq]
  by_cases h : other = name <;> simp [h]

theorem versions_createTable (s : Store) (name : String) :
    (s.createTable name).versions = s.versions := by
  funext table
  unfold versions
  rw [table_createTable]

theorem get?_commit_other (s : Store) {name other : String} (p : Put) (h : other ≠ name) :
    (s.commit name p).tables.get? other = s.tables.get? other := by
  simp [commit, get?_setTable, h]

theorem table_commit (s : Store) (name : String) (p : Put) :
    (s.commit name p).table name = (s.table name).write s.maxVersions s.clock.next p := by
  simp [commit, table, setTable, SortedMap.get?_upsert_self]

theorem versions_commit (s : Store) (name : String) (p : Put) :
    (s.commit name p).versions name =
      View.put s.maxVersions (s.versions name) (p, s.clock.next) := by
  funext key column
  unfold versions
  rw [table_commit, Table.versions_write]

theorem versions_delete (s : Store) (h : Handle) (keys : List Bytes) (key : Bytes)
    (column : Column) :
    (s.delete h keys).versions h.table key column =
      if key ∈ keys then [] else s.versions h.table key column := by
  unfold versions delete
  rw [table_setTable, if_pos rfl, Table.versions_delete]

theorem get?_delete_other (s : Store) (h : Handle) (keys : List Bytes) {other : String}
    (hne : other ≠ h.table) : (s.delete h keys).tables.get? other = s.tables.get? other := by
  simp [delete, get?_setTable, hne]

/-! ### Flushing a handle

A flush commits the puts of the buffer one after the other, so each statement is proved by
induction on the puts, for every store that the earlier ones may have left. -/

theorem maxVersions_flush (s : Store) (h : Handle) : (s.flush h).maxVersions = s.maxVersions := by
  unfold flush
  induction h.pending generalizing s with
  | nil => rfl
  | cons p rest ih => exact ih (s.commit h.table p)

theorem clock_flush (s : Store) (h : Handle) :
    (s.flush h).clock = Clock.tick^[h.pending.length] s.clock := by
  unfold flush
  induction h.pending generalizing s with
  | nil => rfl
  | cons p rest ih => exact ih (s.commit h.table p)

theorem get?_flush_other (s : Store) (h : Handle) {other : String} (hne : other ≠ h.table) :
    (s.flush h).tables.get? other = s.tables.get? other := by
  unfold flush
  induction h.pending generalizing s with
  | nil => rfl
  | cons p rest ih => rw [List.foldl_cons, ih, get?_commit_other s p hne]

theorem versions_flush (s : Store) (h : Handle) :
    (s.flush h).versions h.table =
      View.putAll s.maxVersions (s.versions h.table)
        (h.pending.zip (s.clock.stamps h.pending.length)) := by
  unfold flush
  induction h.pending generalizing s with
  | nil => rfl
  | cons p rest ih =>
    rw [List.foldl_cons, ih, versions_commit]
    rfl

/-- Rows that no buffered put names stay as they are. -/
theorem get?_flush_row (s : Store) (h : Handle) {key : Bytes} (hkey : ∀ p ∈ h.pending, p.row ≠ key) :
    SortedMap.get? ((s.flush h).table h.table) key = SortedMap.get? (s.table h.table) key := by
  unfold flush
  revert hkey
  induction h.pending generalizing s with
  | nil => exact fun _ => rfl
  | cons p rest ih =>
    intro hkey
    rw [List.foldl_cons, ih _ fun q hq => hkey q (List.mem_cons_of_mem _ hq), table_commit,
      Table.get?_write_other _ _ _ _ (Ne.symm (hkey p List.mem_cons_self))]

/-- A flush adds the rows of the buffered puts and no others. -/
theorem contains_flush (s : Store) (h : Handle) (key : Bytes) :
    SortedMap.contains ((s.flush h).table h.table) key =
      (SortedMap.contains (s.table h.table) key || h.pending.any fun p => key == p.row) := by
  unfold flush
  induction h.pending generalizing s with
  | nil => simp
  | cons p rest ih =>
    rw [List.foldl_cons, ih, table_commit, Table.contains_write, List.any_cons, Bool.or_assoc]

end Store

end ColumnConnector
