import ColumnConnector.Error
import ColumnConnector.Filter.Template
import ColumnConnector.Row.Basic
import ColumnConnector.Store.Request
import ColumnConnector.Store.Result
import ColumnConnector.Value.Text

/-!
# Rows and store requests

How a row becomes a put, a get, a delete or a scan, and how what the store answers becomes a row
again.

A put needs an identifier, cells, and both parts of every column; its values take their declared
types first.  A get needs the same without the values.  A delete needs an identifier.  A scan
needs nothing: columns with an empty or missing part are left out of the request and come back
empty.
-/

namespace ColumnConnector

namespace Row

/-- The key of a row. -/
def key (r : Row) : Except ConnectorError Bytes :=
  match r.id with
  | some v => .ok v.encode
  | none => .error (.missingField "HBase row id")

/-- A key, for a row that has cells. -/
def keyOfCells (r : Row) : Except ConnectorError Bytes := do
  let key ← r.key
  if r.cells.isEmpty then throw (.missingField "HBase cells")
  return key

end Row

namespace Cell

/-- The column of a cell as the store knows it. -/
def column (c : Cell) : Except ConnectorError Column :=
  match c.family, c.qualifier with
  | none, _ => .error (.missingField "HBase column family")
  | some _, none => .error (.missingField "HBase column")
  | some f, some q => .ok ⟨Utf8.encode f, Utf8.encode q⟩

/-- The bytes that a put writes for a cell. -/
def stored (c : Cell) : Except ConversionError Bytes :=
  match c.value, c.valueType with
  | none, _ => .ok []
  | some v, none => .ok v.encode
  | some v, some t => CellValue.encode <$> v.coerce t

/-- The column and the bytes that a put writes for a cell. -/
def write (c : Cell) : Except ConnectorError (Column × Bytes) :=
  match c.column with
  | .error e => .error e
  | .ok column =>
    match c.stored with
    | .error e => .error (.conversion e)
    | .ok raw => .ok (column, raw)

/-- The column of a cell both of whose parts are there and not empty. -/
def scanColumn? (c : Cell) : Option Column :=
  match c.family, c.qualifier with
  | some f, some q =>
    if f.isEmpty || q.isEmpty then none else some ⟨Utf8.encode f, Utf8.encode q⟩
  | _, _ => none

/-- The cell with a stored version of it, if there is one. -/
def withVersion (c : Cell) (version : Option KeyValue) : Except ConversionError Cell :=
  let bare := { c with value := none, timestamp := none }
  match version with
  | none => .ok bare
  | some kv => do
    let value ← c.readType.decode kv.value
    return { bare with value := some value, timestamp := some kv.timestamp }

end Cell

namespace Row

def toPut (r : Row) : Except ConnectorError Put := do
  let row ← r.keyOfCells
  let cells ← r.cells.mapM Cell.write
  return { row, cells }

def toGet (r : Row) : Except ConnectorError Get := do
  let row ← r.keyOfCells
  let columns ← r.cells.mapM Cell.column
  return { row, columns }

/-- The scan by a row from a key on. -/
def toScan (templates : List FilterTemplate) (start : Option String) (r : Row) :
    Except ConversionError Scan := do
  let filter ← FilterTemplate.bindAll templates r
  return { start := start.map Utf8.encode, columns := r.cells.filterMap Cell.scanColumn?, filter }

/-- What a get of a row found. -/
def ofGet (r : Row) (found : StoreResult) : Except ConversionError Row := do
  let cells ← r.cells.mapM fun c =>
    c.withVersion (match c.column with
      | .ok column => (found.column column.family column.qualifier).head?
      | .error _ => none)
  return cells.foldl addCell { id := r.id, rowType := r.rowType, timestamp := found.timestamp }

/-- What a scan by a row found. -/
def ofScan (r : Row) (found : StoreResult) : Except ConversionError Row := do
  let id ← r.keyType.decode found.row
  let cells ← r.cells.mapM fun c =>
    c.withVersion (c.scanColumn?.bind fun column =>
      found.columnLatest column.family column.qualifier)
  return cells.foldl addCell { id := some id, rowType := r.rowType, timestamp := found.timestamp }

end Row

end ColumnConnector
