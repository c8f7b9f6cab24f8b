import ColumnConnector.Store.Clock
import ColumnConnector.Store.Error
import ColumnConnector.Store.Table

/-!
# The store in memory

A store holds named tables, the version clock and the number of versions kept.  A handle on a
table buffers puts until they are flushed; the buffer belongs to the handle alone, and everything
else is done to the store at once.
-/

namespace ColumnConnector

/-- An open table with the puts not flushed yet. -/
structure Handle where
  table : String
  pending : List Put := []
deriving DecidableEq

namespace Handle

/-- Buffer puts; none of them if one has an empty key. -/
def buffer (h : Handle) (puts : List Put) : Except StoreError Handle :=
  if puts.any fun p => p.row.isEmpty then .error (.request "row key must not be empty")
  else .ok { h with pending := h.pending ++ puts }

/-- The handle without its buffered puts. -/
def cleared (h : Handle) : Handle := { h with pending := [] }

end Handle

/-- Named tables under one clock. -/
structure Store where
  tables : SortedMap String Table := ∅
  clock : Clock := {}
  maxVersions : Nat := 3

namespace Store

/-- An empty store that keeps so many versions of a cell, at least one. -/
def keeping (versions : Nat) : Store := { maxVersions := max versions 1 }

/-- Add a table, unless there is one of the name. -/
def createTable (s : Store) (name : String) : Store :=
  { s with tables := s.tables.upsert name (·.getD ∅) }

/-- Say what the time of day is read as from now on. -/
def setTime (s : Store) (now : Int64) (later : List Int64 := []) : Store :=
  { s with clock := { s.clock with now, later } }

def table (s : Store) (name : String) : Table := (s.tables.get? name).getD ∅

/-- The number of stored rows of a table, none in an unknown one. -/
def rowCount (s : Store) (name : String) : Nat := (s.table name).size

def openTable (s : Store) (name : String) : Except StoreError Handle :=
  if s.tables.contains name then .ok { table := name } else .error (.tableNotFound name)

def setTable (s : Store) (name : String) (f : Table → Table) : Store :=
  { s with tables := s.tables.upsert name fun t => f (t.getD ∅) }

/-- Write one put under the next timestamp. -/
def commit (s : Store) (name : String) (put : Put) : Store :=
  { s.setTable name (Table.write s.maxVersions s.clock.next · put) with clock := s.clock.tick }

/-- Write the buffered puts of a handle, in order.  The time of day is read for each of them. -/
def flush (s : Store) (h : Handle) : Store := h.pending.foldl (·.commit h.table) s

def get (s : Store) (h : Handle) (g : Get) : StoreResult := (s.table h.table).get g

def delete (s : Store) (h : Handle) (keys : List Bytes) : Store :=
  s.setTable h.table (·.delete keys)

/-- All that a scan returns at this moment. -/
def scan (s : Store) (h : Handle) (request : Scan) : List StoreResult :=
  (s.table h.table).scan request

/-- Every row of a table that a plain scan returns, with all its versions. -/
def dump (s : Store) (name : String) : Except StoreError (List StoreResult) :=
  (fun h => (s.scan h {}).map fun r => s.get h { row := r.row, maxVersions := s.maxVersions }) <$>
    s.openTable name

end Store

end ColumnConnector
