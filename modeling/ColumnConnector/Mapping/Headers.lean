import ColumnConnector.Header
import ColumnConnector.Mapping.Strategy
import ColumnConnector.Value.Json
import ColumnConnector.Value.Text

/-!
# Rows in numbered headers

Each entry of a batch is a row identifier with one column, and its parts stand in headers with the
entry's number.  Entries are read up to the first number under which there is neither identifier
nor family nor qualifier; entries with one identifier make up one row.

Results are written in the same form, one entry for each cell, numbered through all rows.
-/

namespace ColumnConnector.HeaderMapping

/-- Is there an entry of this number? -/
def hasEntry (m : Message) (index : Nat) : Bool :=
  [Header.rowId, Header.family, Header.qualifier].any fun name =>
    m.hasHeader (Header.numbered name index)

/-- The numbers of the entries up to the first gap.  There are no more of them than headers. -/
def entryNumbers (m : Message) : List Nat :=
  (List.range' 1 m.headers.size).takeWhile (hasEntry m)

/-- A declared type; a blank one counts as undeclared. -/
def declaredType (m : Message) (name : String) : Except ConversionError (Option ValueType) :=
  match (m.headerText name).filter fun s => !(Text.trim s).isEmpty with
  | none => .ok none
  | some s => some <$> ValueType.read s

/-- The value that a header gives.  An array of bytes is bytes, unless another type is declared;
everything else is read from its text. -/
def valueOf (declared : Option ValueType) (j : Json) : Except ConversionError CellValue :=
  match (if declared.all (· = .bytes) then Json.list? Json.byte? j else none) with
  | some raw => .ok (.bytes raw)
  | none => (declared.getD .standard).parse j.text

/-- The value of a header that may be absent. -/
def valueAt (m : Message) (name : String) (declared : Option ValueType) :
    Except ConversionError (Option CellValue) :=
  match m.header name with
  | none => .ok none
  | some j => some <$> valueOf declared j

/-- The cells of an entry: one, if both parts of its column are there. -/
def entryCells (m : Message) (index : Nat) : Except ConversionError (List Cell) :=
  match m.headerText (Header.numbered Header.family index),
      m.headerText (Header.numbered Header.qualifier index) with
  | some family, some qualifier => do
    let valueType ← declaredType m (Header.numbered Header.valueType index)
    let value ← valueAt m (Header.numbered Header.value index) valueType
    return [{ family := some family, qualifier := some qualifier, value, valueType }]
  | _, _ => .ok []

/-- An entry as a row. -/
def entryRow (m : Message) (index : Nat) : Except ConversionError Row := do
  let rowType ← declaredType m (Header.numbered Header.rowType index)
  let id ← valueAt m (Header.numbered Header.rowId index) rowType
  let cells ← entryCells m index
  return { id, rowType, cells }

/-- Do two rows have one identifier? -/
def sameId (r s : Row) : Bool :=
  match r.id, s.id with
  | none, none => true
  | some v, some w => v.same w
  | _, _ => false

/-- Add an entry to the row of its identifier, or as a further row. -/
def addEntry (entry : Row) : RowBatch → RowBatch
  | [] => [entry]
  | r :: rest =>
    if sameId r entry then entry.cells.foldl Row.addCell r :: rest
    else r :: addEntry entry rest

/-- The rows that the headers of a message carry. -/
def resolve (m : Message) : Except ConnectorError RowBatch :=
  match (entryNumbers m).mapM (entryRow m) with
  | .ok entries => .ok (entries.foldl (fun batch entry => addEntry entry batch) [])
  | .error e => .error (.conversion e)

/-- What stands in the header of a value. -/
def valueJson (v : Option CellValue) : Json := v.elim .null CellValue.contentJson

def nameJson (name : Option String) : Json := name.elim .null .str

/-- Set the headers of one entry. -/
def writeEntry (m : Message) (entry : (Option CellValue × Cell) × Nat) : Message :=
  let ((id, c), index) := entry
  (((m.setHeader (Header.numbered Header.rowId index) (valueJson id)).setHeader
    (Header.numbered Header.family index) (nameJson c.family)).setHeader
    (Header.numbered Header.qualifier index) (nameJson c.qualifier)).setHeader
    (Header.numbered Header.value index) (valueJson c.value)

/-- The cells of a batch, each with the identifier of its row. -/
def entries (batch : RowBatch) : List (Option CellValue × Cell) :=
  batch.flatMap fun r => r.cells.map fun c => (r.id, c)

/-- Set the headers of all cells of a batch. -/
def write (batch : RowBatch) (m : Message) : Message :=
  ((entries batch).zipIdx 1).foldl writeEntry m

def strategy : Strategy where
  name := "HeaderMappingStrategy"
  resolve := resolve
  writeGet := write
  writeScan := write

end ColumnConnector.HeaderMapping
