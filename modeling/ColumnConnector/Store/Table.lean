import ColumnConnector.SortedMap
import ColumnConnector.Store.Request
import ColumnConnector.Store.Result

/-!
# Tables

A table maps keys to rows, a row maps columns to their versions, and versions stand newest first.
Writing a put adds one version to each of its columns and forgets those beyond the limit.
-/

namespace ColumnConnector

/-- The versions of one column, newest first. -/
abbrev Versions := List (Int64 × Bytes)

/-- The columns of one row. -/
abbrev RowData := SortedMap Column Versions

/-- The rows of a table. -/
abbrev Table := SortedMap Bytes RowData

namespace RowData

/-- Add a version of a column, keeping `limit` of them. -/
def writeCell (limit : Nat) (timestamp : Int64) (data : RowData) (cell : Column × Bytes) :
    RowData :=
  data.upsert cell.1 fun versions => ((timestamp, cell.2) :: versions.getD []).take limit

/-- Add the cells of a put, in order. -/
def writeCells (limit : Nat) (timestamp : Int64) (data : RowData) (cells : List (Column × Bytes)) :
    RowData :=
  cells.foldl (writeCell limit timestamp) data

/-- The newest versions of the columns asked for, or of all columns. -/
def project (key : Bytes) (data : RowData) (columns : List Column) (maxVersions : Nat) :
    List KeyValue :=
  (data.entries.filter fun e => columns.isEmpty || columns.contains e.1).flatMap fun e =>
    (e.2.take maxVersions).map fun v => ⟨key, e.1.family, e.1.qualifier, v.1, v.2⟩

end RowData

namespace Table

/-- Write a put under a timestamp. -/
def write (limit : Nat) (timestamp : Int64) (table : Table) (put : Put) : Table :=
  table.upsert put.row fun data => RowData.writeCells limit timestamp (data.getD ∅) put.cells

/-- Remove whole rows. -/
def delete (table : Table) (keys : List Bytes) : Table := keys.foldl SortedMap.erase table

/-- The row that a get finds; a row without cells is not there. -/
def get (table : Table) (g : Get) : StoreResult :=
  match SortedMap.get? table g.row with
  | none => .empty
  | some data =>
    let cells := RowData.project g.row data g.columns g.maxVersions
    if cells.isEmpty then .empty else .ofCells g.row cells

/-- What a scan returns of one row, if it returns the row. -/
def scanRow? (s : Scan) (row : Bytes × RowData) : Option StoreResult :=
  let cells := RowData.project row.1 row.2 s.columns 1
  if cells.isEmpty || !(s.filter.all fun f => f.accepts row.1 cells) then none
  else some (.ofCells row.1 cells)

/-- The rows that a scan returns, in key order. -/
def scan (table : Table) (s : Scan) : List StoreResult :=
  (table.entries.filter fun e => s.start.all fun start => (compare start e.1).isLE).filterMap
    (scanRow? s)

end Table

end ColumnConnector
