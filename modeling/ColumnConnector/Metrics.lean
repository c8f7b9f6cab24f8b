import ColumnConnector.Json.Decode

/-!
# Metrics

A connector reports a snapshot of totals with further named figures.  An endpoint at work counts
its invocations and their rows in `Counters`, which wrap at 64 bits, and reports them in that form.
-/

namespace ColumnConnector

/-- A report of totals and further figures. -/
structure Metrics where
  recordsTotal : UInt64 := 0
  bytesTotal : UInt64 := 0
  errorsTotal : UInt64 := 0
  custom : List (String × Binary64) := []
deriving DecidableEq

namespace Metrics

/-- The first figure of the name. -/
def figure (m : Metrics) (name : String) : Option Binary64 := m.custom.lookup name

def ofCount (n : UInt64) : Json := .int n.toNat

def toJson (m : Metrics) : Json :=
  .record [
    ("records_total", ofCount m.recordsTotal),
    ("bytes_total", ofCount m.bytesTotal),
    ("errors_total", ofCount m.errorsTotal),
    ("custom", .arr (m.custom.map fun f => .arr [.str f.1, .ofFloat f.2]))]

/-- A named figure, as a pair. -/
def figure? : Json → Option (String × Binary64)
  | .arr [name, value] => do
    let name ← name.string?
    let value ← value.float?
    return (name, value)
  | _ => none

def ofJson? (j : Json) : Option Metrics :=
  match j.fields? ["records_total", "bytes_total", "errors_total", "custom"] with
  | some [records, bytes, errors, custom] => do
    let recordsTotal ← Json.required? Json.count? records
    let bytesTotal ← Json.required? Json.count? bytes
    let errorsTotal ← Json.required? Json.count? errors
    let custom ← Json.required? (Json.list? figure?) custom
    return { recordsTotal, bytesTotal, errorsTotal, custom }
  | _ => none

end Metrics

/-- What has been done so far. -/
structure Counters where
  puts : UInt64 := 0
  gets : UInt64 := 0
  deletes : UInt64 := 0
  scans : UInt64 := 0
  rowsWritten : UInt64 := 0
  rowsDeleted : UInt64 := 0
  rowsReturned : UInt64 := 0
  bytesWritten : UInt64 := 0
  errors : UInt64 := 0
deriving DecidableEq

namespace Counters

def recordPut (c : Counters) (rows bytes : UInt64) : Counters :=
  { c with
    puts := c.puts + 1
    rowsWritten := c.rowsWritten + rows
    bytesWritten := c.bytesWritten + bytes }

def recordGet (c : Counters) (rows : UInt64) : Counters :=
  { c with gets := c.gets + 1, rowsReturned := c.rowsReturned + rows }

def recordDelete (c : Counters) (rows : UInt64) : Counters :=
  { c with deletes := c.deletes + 1, rowsDeleted := c.rowsDeleted + rows }

def recordScan (c : Counters) (rows : UInt64) : Counters :=
  { c with scans := c.scans + 1, rowsReturned := c.rowsReturned + rows }

def recordError (c : Counters) : Counters := { c with errors := c.errors + 1 }

/-- A count as a figure. -/
def asFigure (n : UInt64) : Binary64 := Binary64.ofInt n.toNat

/-- The report of the counters. -/
def metrics (c : Counters) : Metrics where
  recordsTotal := c.rowsWritten + c.rowsDeleted + c.rowsReturned
  bytesTotal := c.bytesWritten
  errorsTotal := c.errors
  custom := [
    ("hbase.puts", asFigure c.puts),
    ("hbase.gets", asFigure c.gets),
    ("hbase.deletes", asFigure c.deletes),
    ("hbase.scans", asFigure c.scans),
    ("hbase.rows_written", asFigure c.rowsWritten),
    ("hbase.rows_deleted", asFigure c.rowsDeleted),
    ("hbase.rows_returned", asFigure c.rowsReturned)]

end Counters

end ColumnConnector
