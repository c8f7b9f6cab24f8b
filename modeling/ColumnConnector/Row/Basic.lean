import ColumnConnector.Value.Basic

/-!
# Rows and cells

A cell is addressed by a family and a qualifier and may carry a value, a declared type and a
timestamp; with the address alone it is a template.  A row has an identifier and cells, which
`addCell` keeps apart by column.

`apply` completes a row by a model: types that the row leaves open are taken from the model, and
model cells of further columns are appended.
-/

namespace ColumnConnector

/-- A cell; every part may be missing. -/
structure Cell where
  family : Option String := none
  qualifier : Option String := none
  value : Option CellValue := none
  valueType : Option ValueType := none
  timestamp : Option Int64 := none
deriving DecidableEq

namespace Cell

/-- The type a value of this cell is read as. -/
def readType (c : Cell) : ValueType := c.valueType.getD .standard

def sameColumn (c d : Cell) : Bool := c.family = d.family && c.qualifier = d.qualifier

/-- Take an open type from a model cell. -/
def apply (c model : Cell) : Cell := { c with valueType := c.valueType.or model.valueType }

/-- The column of a cell that names both parts. -/
def column? (c : Cell) : Option (String × String) :=
  match c.family, c.qualifier with
  | some f, some q => some (f, q)
  | _, _ => none

end Cell

/-- A row: an identifier and cells in order. -/
structure Row where
  id : Option CellValue := none
  rowType : Option ValueType := none
  timestamp : Option Int64 := none
  cells : List Cell := []
deriving DecidableEq

namespace Row

/-- The type a key of this row is read as. -/
def keyType (r : Row) : ValueType := r.rowType.getD .standard

def hasColumnOf (r : Row) (c : Cell) : Bool := r.cells.any (·.sameColumn c)

/-- Append the cell unless its column is there already. -/
def addCell (r : Row) (c : Cell) : Row :=
  if r.hasColumnOf c then r else { r with cells := r.cells ++ [c] }

/-- The first cell of a column. -/
def cell? (r : Row) (family qualifier : String) : Option Cell :=
  r.cells.find? fun c => c.family = some family && c.qualifier = some qualifier

/-- Merge one model cell into cells: complete the first of its column, or append it. -/
def mergeCell (model : Cell) : List Cell → List Cell
  | [] => [model]
  | c :: rest => if c.sameColumn model then c.apply model :: rest else c :: mergeCell model rest

/-- Complete a row by a model. -/
def apply (r model : Row) : Row :=
  { r with
    rowType := r.rowType.or model.rowType
    cells := model.cells.foldl (fun cells m => mergeCell m cells) r.cells }

end Row

/-- The rows of one message, in order. -/
abbrev RowBatch := List Row

end ColumnConnector
