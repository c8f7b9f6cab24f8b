import ColumnConnector.Store.KeyValue

/-!
# Rows read from a store

A result holds the cells read of one row in store order: by family, then qualifier, then newest
first.  A result without cells stands for a row that is not there.
-/

namespace ColumnConnector

/-- Cells read of one row. -/
structure StoreResult where
  row : Bytes := []
  cells : List KeyValue := []
deriving DecidableEq

namespace StoreResult

/-- Store order: ascending columns, and the versions of one column from the newest on. -/
def order (a b : KeyValue) : Ordering :=
  ((compare a.family b.family).then (compare a.qualifier b.qualifier)).then
    (compare b.timestamp a.timestamp)

def inOrder (a b : KeyValue) : Bool := (order a b).isLE

/-- The cells of a row, brought into store order; equal ones keep their places. -/
def ofCells (row : Bytes) (cells : List KeyValue) : StoreResult :=
  ⟨row, cells.mergeSort inOrder⟩

def empty : StoreResult := {}

def isEmpty (r : StoreResult) : Bool := r.cells.isEmpty

/-- The versions of a column, newest first. -/
def column (r : StoreResult) (family qualifier : Bytes) : List KeyValue :=
  r.cells.filter (·.isOf family qualifier)

/-- The newest version of a column. -/
def columnLatest (r : StoreResult) (family qualifier : Bytes) : Option KeyValue :=
  KeyValue.latest (r.column family qualifier)

/-- The newest value of a column. -/
def value (r : StoreResult) (family qualifier : Bytes) : Option Bytes :=
  (r.columnLatest family qualifier).map (·.value)

/-- The timestamp of the first cell. -/
def timestamp (r : StoreResult) : Option Int64 := r.cells.head?.map (·.timestamp)

end StoreResult

end ColumnConnector
