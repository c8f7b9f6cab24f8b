import ColumnConnector.Store.Pool

/-!
# Working with a store by name

A workspace is a store in memory together with open handles, open scans and pools, each under a
name of its own.  A session with the store is a list of steps, each of which gives an answer and
the next workspace.

A handle that came from a pool returns there when it is released or when its name is taken over.
A pool whose name is taken over is gone, and the handles it gave out have nowhere to return.
-/

namespace ColumnConnector

/-- A handle in use and the pool it came from. -/
structure Held where
  handle : Handle
  home : Option String := none

/-- A store with everything that is open on it. -/
structure Workspace (π : Type := Pool) where
  store : Store := {}
  handles : SortedMap String Held := ∅
  scans : SortedMap String (List StoreResult) := ∅
  pools : SortedMap String π := ∅

/-- One request of a session. -/
inductive Step where
  /-- From now on the time of day is read as `now`, and then as `later`, one put after the other. -/
  | setTime (now : Int64) (later : List Int64 := [])
  | createTable (table : String)
  | rowCount (table : String)
  | dump (table : String)
  | openTable (table name : String)
  | put (name : String) (puts : List Put)
  | flush (name : String)
  | discard (name : String)
  | get (name : String) (request : Get)
  | delete (name : String) (keys : List Bytes)
  | scan (name : String) (request : Scan)
  | openScan (name : String) (request : Scan) (scan : String)
  | next (scan : String)
  | close (scan : String)
  | openPool (table : String) (maxSize : Nat) (pool : String)
  | checkout (pool name : String)
  | release (name : String)
  | closePool (pool : String)

/-- What a step gives back. -/
inductive Answer (π : Type := Pool) where
  | done
  | failed (e : StoreError)
  | table (name : String)
  | count (n : Nat)
  | result (r : StoreResult)
  | results (rs : List StoreResult)
  | next (r : Option StoreResult)
  | pool (p : π)
  | checkout (outcome : Checkout) (p : π)
  | pools (ps : List (String × π))
  /-- Nothing is open under the name. -/
  | unknown (name : String)

namespace Workspace

variable {π : Type}

/-- The workspace after the handle under a name has changed. -/
def update (w : Workspace π) (name : String) (held : Held) (h : Handle) : Workspace π :=
  { w with handles := w.handles.insert name { held with handle := h } }

/-- Make a new pool under a name; handles of an earlier one belong to none any more. -/
def setPool (w : Workspace π) (pool : String) (p : π) : Workspace π :=
  { w with
    pools := w.pools.insert pool p
    handles := w.handles.mapValues fun held =>
      if held.home = some pool then { held with home := none } else held }

variable [Pooling π]

/-- Let go of the handle under a name. -/
def drop (w : Workspace π) (name : String) : Workspace π :=
  match w.handles.get? name with
  | none => w
  | some held =>
    let w := { w with handles := w.handles.erase name }
    match held.home.bind fun pool => (w.pools.get? pool).map fun p => (pool, p) with
    | none => w
    | some (pool, p) => { w with pools := w.pools.insert pool (Pooling.release p held.handle) }

/-- Keep a handle under a name. -/
def hold (w : Workspace π) (name : String) (held : Held) : Workspace π :=
  let w := w.drop name
  { w with handles := w.handles.insert name held }

def openTable (w : Workspace π) (table name : String) : Answer π × Workspace π :=
  match w.store.openTable table with
  | .ok h => (.table h.table, w.hold name ⟨h, none⟩)
  | .error e => (.failed e, w)

def put (w : Workspace π) (name : String) (held : Held) (puts : List Put) :
    Answer π × Workspace π :=
  match held.handle.buffer puts with
  | .ok h => (.done, w.update name held h)
  | .error e => (.failed e, w)

def checkout (w : Workspace π) (pool : String) (p : π) (name : String) : Answer π × Workspace π :=
  match Pooling.checkout p w.store with
  | (.granted h, p, s) =>
    let w := { w with store := s, pools := w.pools.insert pool p }.hold name ⟨h, some pool⟩
    (.checkout (.granted h) ((w.pools.get? pool).getD p), w)
  | (outcome, p, s) =>
    (.checkout outcome p, { w with store := s, pools := w.pools.insert pool p })

/-- A step on the handle under a name. -/
def withHandle (w : Workspace π) (name : String) (f : Held → Answer π × Workspace π) :
    Answer π × Workspace π :=
  match w.handles.get? name with
  | none => (.unknown name, w)
  | some held => f held

/-- A step on the pool under a name. -/
def withPool (w : Workspace π) (name : String) (f : π → Answer π × Workspace π) :
    Answer π × Workspace π :=
  match w.pools.get? name with
  | none => (.unknown name, w)
  | some p => f p

def step (w : Workspace π) : Step → Answer π × Workspace π
  | .setTime now later => (.done, { w with store := w.store.setTime now later })
  | .createTable table => (.done, { w with store := w.store.createTable table })
  | .rowCount table => (.count (w.store.rowCount table), w)
  | .dump table =>
    match w.store.dump table with
    | .ok rows => (.results rows, w)
    | .error e => (.failed e, w)
  | .openTable table name => w.openTable table name
  | .put name puts => w.withHandle name fun held => w.put name held puts
  | .flush name => w.withHandle name fun held =>
      (.done, { w with store := w.store.flush held.handle }.update name held held.handle.cleared)
  | .discard name => w.withHandle name fun held =>
      (.count held.handle.pending.length, w.update name held held.handle.cleared)
  | .get name request => w.withHandle name fun held =>
      (.result (w.store.get held.handle request), w)
  | .delete name keys => w.withHandle name fun held =>
      (.done, { w with store := w.store.delete held.handle keys })
  | .scan name request => w.withHandle name fun held =>
      (.results (w.store.scan held.handle request), w)
  | .openScan name request scan => w.withHandle name fun held =>
      (.done, { w with scans := w.scans.insert scan (w.store.scan held.handle request) })
  | .next scan =>
    match w.scans.get? scan with
    | none => (.unknown scan, w)
    | some [] => (.next none, w)
    | some (r :: rest) => (.next (some r), { w with scans := w.scans.insert scan rest })
  | .close scan =>
    match w.scans.get? scan with
    | none => (.unknown scan, w)
    | some _ => (.done, { w with scans := w.scans.insert scan [] })
  | .openPool table maxSize pool =>
    let p : π := Pooling.ofSize table maxSize
    (.pool p, w.setPool pool p)
  | .checkout pool name => w.withPool pool fun p => w.checkout pool p name
  | .release name =>
    let w := w.drop name
    (.pools w.pools.entries, w)
  | .closePool pool => w.withPool pool fun p =>
      (.done, { w with pools := w.pools.insert pool (Pooling.close p) })

/-- The answers of a session and the workspace at its end. -/
def run : Workspace π → List Step → List (Answer π) × Workspace π
  | w, [] => ([], w)
  | w, s :: rest =>
    let (answer, w) := w.step s
    let (answers, w) := run w rest
    (answer :: answers, w)

end Workspace

end ColumnConnector
