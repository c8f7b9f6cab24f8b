import ColumnConnector.Filter.Basic

/-!
# Requests to a table

What a table handle is asked for: a put of cells under one key, a get of one row, and a scan of
the rows from a key on.  A row is deleted by its key alone.
-/

namespace ColumnConnector

/-- Cells to be written under one key, in insertion order. -/
structure Put where
  row : Bytes
  cells : List (Column × Bytes)
deriving DecidableEq

namespace Put

/-- The bytes of the key and of every family, qualifier and value. -/
def heapSize (p : Put) : Nat :=
  p.cells.foldr (fun c n => c.1.family.length + c.1.qualifier.length + c.2.length + n) p.row.length

/-- The bytes of several puts. -/
def totalSize (puts : List Put) : Nat := puts.foldr (fun p n => p.heapSize + n) 0

end Put

/-- A request for one row: the columns (all when none is named) and how many versions of each. -/
structure Get where
  row : Bytes
  columns : List Column := []
  maxVersions : Nat := 1
deriving DecidableEq

namespace Get

/-- At least one version is always asked for. -/
def withMaxVersions (g : Get) (n : Nat) : Get := { g with maxVersions := max n 1 }

end Get

/-- A request for the rows from a key on (from the first when there is none), with the columns
(all when none is named) and a filter. -/
structure Scan where
  start : Option Bytes := none
  columns : List Column := []
  filter : Option Filter := none

end ColumnConnector
