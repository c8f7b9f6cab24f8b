import ColumnConnector.Store.Basic

/-!
# Connections

A connection is whatever can open table handles and carry out requests through them.  The state
of the other side is a parameter, so that the same client code runs against the store in memory
and against any connection that watches or disturbs it.

The rows of a scan are fixed when the scan is opened; `fetch` stands for asking for the next of
them, and `close` for giving the scan up.
-/

namespace ColumnConnector

/-- The requests that a client can make.  A failed request leaves the handle as it was. -/
class Connection (σ : Type) where
  openTable : String → EStateM StoreError σ Handle
  put : Handle → List Put → EStateM StoreError σ Handle
  flush : Handle → EStateM StoreError σ Handle
  /-- Drop the buffered puts of a handle. -/
  discard : Handle → σ → Handle × σ
  get : Handle → Get → EStateM StoreError σ StoreResult
  delete : Handle → List Bytes → EStateM StoreError σ Unit
  scan : Handle → Scan → EStateM StoreError σ (List StoreResult)
  fetch : EStateM StoreError σ Unit
  close : σ → σ

/-- An outcome that leaves the state alone. -/
def Connection.answer {σ α : Type} (outcome : Except StoreError α) : EStateM StoreError σ α :=
  fun s =>
    match outcome with
    | .ok a => .ok a s
    | .error e => .error e s

instance : Connection Store where
  openTable name := fun s => Connection.answer (s.openTable name) s
  put h puts := Connection.answer (h.buffer puts)
  flush h := fun s => .ok h.cleared (s.flush h)
  discard h s := (h.cleared, s)
  get h g := fun s => .ok (s.get h g) s
  delete h keys := fun s => .ok () (s.delete h keys)
  scan h request := fun s => .ok (s.scan h request) s
  fetch := fun s => .ok () s
  close s := s

end ColumnConnector
