import ColumnConnector.Invocation.Plan
import ColumnConnector.Metrics
import ColumnConnector.Row.Request
import ColumnConnector.Store.Connection

/-!
# Carrying out a plan

The four operations on a batch, through one handle of a connection.  An invocation at work may
fail at any request; what was done to the connection before stays done.

A batch is written as a whole: all puts are built before the first is sent, and the puts of a
failed write are dropped.  The rows of a get are asked for one by one.  A scan runs once for each
row of the batch, and the rows of the last run count.
-/

namespace ColumnConnector

/-- What carrying out a plan came to. -/
inductive Outcome where
  /-- An empty batch had nothing to write or to delete. -/
  | idle
  | written (rows bytes : UInt64)
  | fetched (rows : RowBatch)
  | deleted (rows : UInt64)
  | scanned (rows : RowBatch)

namespace Outcome

/-- Count an outcome. -/
def record (c : Counters) : Outcome → Counters
  | .idle => c
  | .written rows bytes => c.recordPut rows bytes
  | .fetched rows => c.recordGet (UInt64.ofNat rows.length)
  | .deleted rows => c.recordDelete rows
  | .scanned rows => c.recordScan (UInt64.ofNat rows.length)

/-- How an outcome is written onto the outbound message, if it has rows. -/
def writing? (s : Strategy) : Outcome → Option (Message → Message)
  | .fetched (r :: rows) => some (s.writeGet (r :: rows))
  | .scanned (r :: rows) => some (s.writeScan (r :: rows))
  | _ => none

/-- Why the rows of an outcome are not written in full onto an outbound message, if so. -/
def refusal? (s : Strategy) (m : Message) : Outcome → Option ConnectorError
  | .fetched (r :: rows) => s.refuseGet (r :: rows) m
  | .scanned (r :: rows) => s.refuseScan (r :: rows) m
  | _ => none

end Outcome

/-- A handle in use on a connection. -/
structure Session (σ : Type) where
  connection : σ
  handle : Handle

/-- An invocation at work: it may fail, and the session goes on from where it failed. -/
abbrev Work (σ α : Type) := EStateM ConnectorError (Session σ) α

namespace Work

variable {σ : Type} {α : Type}

def ofExcept (outcome : Except ConnectorError α) : Work σ α := fun s =>
  match outcome with
  | .ok a => .ok a s
  | .error e => .error e s

def ofConversion (outcome : Except ConversionError α) : Work σ α :=
  ofExcept (outcome.mapError .conversion)

/-- A request through the handle. -/
def request (action : Handle → EStateM StoreError σ α) : Work σ α := fun s =>
  match action s.handle s.connection with
  | .ok a c => .ok a { s with connection := c }
  | .error e c => .error (.store e) { s with connection := c }

/-- A request that changes the handle. -/
def requestHandle (action : Handle → EStateM StoreError σ Handle) : Work σ Unit := fun s =>
  match action s.handle s.connection with
  | .ok h c => .ok () ⟨c, h⟩
  | .error e c => .error (.store e) { s with connection := c }

variable [Connection σ]

/-- The session with nothing buffered in its handle. -/
def discarded (s : Session σ) : Session σ :=
  let (h, c) := Connection.discard s.handle s.connection
  ⟨c, h⟩

/-- Buffer and flush puts; if either fails, none stays buffered. -/
def write (puts : List Put) : Work σ Unit := fun s =>
  let action : Work σ Unit := do
    requestHandle fun h => Connection.put h puts
    requestHandle Connection.flush
  match action s with
  | .ok () s => .ok () s
  | .error e s => .error e (discarded s)

/-- The row that a get finds. -/
def getRow (r : Row) : Work σ Row := do
  let g ← ofExcept r.toGet
  let found ← request fun h => Connection.get h g
  ofConversion (r.ofGet found)

/-- The first rows of an open scan, each read as soon as it is fetched. -/
def collect (template : Row) : Nat → List StoreResult → Work σ RowBatch
  | 0, _ => pure []
  | _ + 1, [] => do
    request fun _ => Connection.fetch
    return []
  | bound + 1, found :: rest => do
    request fun _ => Connection.fetch
    let r ← ofConversion (template.ofScan found)
    let rows ← collect template bound rest
    return r :: rows

/-- End a scan, whether or not it went well. -/
def closing (action : Work σ α) : Work σ α := fun s =>
  match action s with
  | .ok a s => .ok a { s with connection := Connection.close s.connection }
  | .error e s => .error e { s with connection := Connection.close s.connection }

/-- The first rows that a scan by a row finds. -/
def scanRows (filters : List FilterTemplate) (start : Option String) (bound : Nat)
    (template : Row) : Work σ RowBatch := do
  let s ← ofConversion (template.toScan filters start)
  let found ← request fun h => Connection.scan h s
  closing (collect template bound found)

/-- Scan by one row after the other; the rows of the last scan count. -/
def scanAll (filters : List FilterTemplate) (start : Option String) (bound : Nat)
    (batch : RowBatch) : Work σ RowBatch :=
  batch.foldlM (fun _ template => scanRows filters start bound template) []

/-- Carry out a put. -/
def put (batch : RowBatch) : Work σ Outcome := do
  let puts ← ofExcept (batch.mapM Row.toPut)
  if puts.isEmpty then return .idle
  write puts
  return .written (UInt64.ofNat puts.length) (UInt64.ofNat (Put.totalSize puts))

/-- Carry out a get. -/
def get (batch : RowBatch) : Work σ Outcome := .fetched <$> batch.mapM getRow

/-- Carry out a delete. -/
def delete (batch : RowBatch) : Work σ Outcome := do
  let keys ← ofExcept (batch.mapM Row.key)
  if keys.isEmpty then return .idle
  request fun h => Connection.delete h keys
  return .deleted (UInt64.ofNat keys.length)

/-- The greatest number of rows that a scan may return. -/
def scanBound (m : Message) : Except ConnectorError Nat :=
  match m.headerAs UInt64 Header.maxScanResults with
  | some (.ok n) => .ok n.toNat
  | some (.error reason) =>
    .error (.configuration (.invalidValue Header.maxScanResults reason))
  | none => .error (.missingField "HBase max scan results")

/-- Carry out a scan. -/
def scan (filters : List FilterTemplate) (m : Message) (batch : RowBatch) : Work σ Outcome := do
  let bound ← ofExcept (scanBound m)
  .scanned <$> scanAll filters (m.headerText Header.startRow) bound batch

/-- Carry out a plan. -/
def perform (e : Endpoint) (m : Message) (p : Plan) : Work σ Outcome :=
  match p.operation with
  | .put => put p.batch
  | .get => get p.batch
  | .delete => delete p.batch
  | .scan => scan e.filters m p.batch

end Work

end ColumnConnector
