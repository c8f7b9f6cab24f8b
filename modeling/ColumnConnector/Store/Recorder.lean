import ColumnConnector.Store.Connection

/-!
# Watched connections

A recorder stands before another connection and notes every call that reaches it.  It can be armed
with one fault, which makes a later call of a kind fail once, and with canned results, which are
given out in place of what the store would answer.

A call is noted before the fault is looked at; closing a scan and dropping buffered puts cannot
fail, and a fault armed for them is spent without effect.
-/

namespace ColumnConnector

/-- The kinds of calls. -/
inductive CallKind where
  | openTable
  | put
  | flush
  | discard
  | get
  | delete
  | scan
  | fetch
  | close
deriving DecidableEq, Repr

/-- A call that reached the connection. -/
inductive Call where
  | openTable (table : String)
  | put (puts : List Put)
  | flush
  | discard (count : Nat)
  | get (request : Get)
  | delete (keys : List Bytes)
  | scan (request : Scan)
  | fetch
  | close

namespace Call

def kind : Call → CallKind
  | .openTable _ => .openTable
  | .put _ => .put
  | .flush => .flush
  | .discard _ => .discard
  | .get _ => .get
  | .delete _ => .delete
  | .scan _ => .scan
  | .fetch => .fetch
  | .close => .close

end Call

/-- A failure to come: so many calls of the kind are let through before it. -/
structure Fault where
  on : CallKind
  error : StoreError
  skip : Nat := 0

/-- A connection with a record of its calls. -/
structure Recorder (σ : Type) where
  inner : σ
  calls : List Call := []
  fault : Option Fault := none
  gets : List StoreResult := []
  scan : Option (List StoreResult) := none

namespace Recorder

variable {σ : Type}

/-- Note a call; the error is that of the fault, if it is its turn. -/
def note (r : Recorder σ) (call : Call) : Option StoreError × Recorder σ :=
  let r := { r with calls := r.calls ++ [call] }
  match r.fault with
  | none => (none, r)
  | some f =>
    if f.on ≠ call.kind then (none, r)
    else if f.skip = 0 then (some f.error, { r with fault := none })
    else (none, { r with fault := some { f with skip := f.skip - 1 } })

/-- A call that is passed on. -/
def pass {α : Type} (call : Call) (action : EStateM StoreError σ α) :
    EStateM StoreError (Recorder σ) α := fun r =>
  match r.note call with
  | (some e, r) => .error e r
  | (none, r) =>
    match action r.inner with
    | .ok a s => .ok a { r with inner := s }
    | .error e s => .error e { r with inner := s }

/-- A get, answered by the first canned result if there is one. -/
def get [Connection σ] (h : Handle) (request : Get) :
    EStateM StoreError (Recorder σ) StoreResult :=
  pass (.get request) (pure ()) >>= fun _ r =>
    match r.gets with
    | result :: rest => .ok result { r with gets := rest }
    | [] =>
      match Connection.get h request r.inner with
      | .ok result s => .ok result { r with inner := s }
      | .error e s => .error e { r with inner := s }

/-- A scan, answered by the canned results if there are any. -/
def openScan [Connection σ] (h : Handle) (request : Scan) :
    EStateM StoreError (Recorder σ) (List StoreResult) :=
  pass (.scan request) (pure ()) >>= fun _ r =>
    match r.scan with
    | some results => .ok results { r with scan := none }
    | none =>
      match Connection.scan h request r.inner with
      | .ok results s => .ok results { r with inner := s }
      | .error e s => .error e { r with inner := s }

/-- Drop buffered puts, which is noted when there are any. -/
def discard [Connection σ] (h : Handle) (r : Recorder σ) : Handle × Recorder σ :=
  let r := if h.pending.isEmpty then r else (r.note (.discard h.pending.length)).2
  let (h, s) := Connection.discard h r.inner
  (h, { r with inner := s })

instance [Connection σ] : Connection (Recorder σ) where
  openTable name := pass (.openTable name) (Connection.openTable name)
  put h puts := pass (.put puts) (Connection.put h puts)
  flush h := pass .flush (Connection.flush h)
  discard := discard
  get := get
  delete h keys := pass (.delete keys) (Connection.delete h keys)
  scan := openScan
  fetch := pass .fetch Connection.fetch
  close r :=
    let r := (r.note .close).2
    { r with inner := Connection.close r.inner }

end Recorder

end ColumnConnector
