import ColumnConnector.Store.Connection
import ColumnConnector.Text.Quoted

/-!
# Pools of handles

The handles of a table are kept in a pool, which opens them as they are needed and keeps the
returned ones for later checkouts.  The pool itself is the work of others, and any that is lawful
will do: `Pooling` says what it can be asked and what is relied on, above all that a handle is
recycled before it is handed out again and that there are never more handles than allowed.  How a
handle is opened and how it is recycled is up to the table manager: it loses its buffered puts.

`Pool` is a pool that uses the handle returned first before all others.
-/

namespace ColumnConnector

namespace TableManager

variable {σ : Type} [Connection σ]

/-- Open a new handle. -/
def create (table : String) : EStateM StoreError σ Handle := Connection.openTable table

/-- Make a handle ready for its next use, which cannot fail. -/
def recycle (h : Handle) (s : σ) : Handle × σ := Connection.discard h s

end TableManager

/-- Why a pool has no handle to give. -/
inductive PoolError where
  /-- No handle could be opened. -/
  | backend (e : StoreError)
  | closed

/-- The error of a checkout; one of the connection is passed on as it is. -/
def PoolError.toStore : PoolError → StoreError
  | .backend e => e
  | .closed => .pool "pool get failed: Pool has been closed"

/-- What asking a pool for a handle comes to. -/
inductive Loan where
  | lent (h : Handle)
  | failed (e : PoolError)
  /-- All handles are handed out and no further one may be opened. -/
  | waiting

/-- What is to be seen of a pool: the handles of one table that exist, those not handed out being
idle. -/
structure PoolStatus where
  table : String
  maxSize : Nat
  size : Nat := 0
  idle : List Handle := []
  closed : Bool := false

/-- A way to keep handles. -/
class Pooling (π : Type) where
  /-- An empty pool of at most so many handles on a table. -/
  build : String → Nat → π
  /-- Ask for a handle. -/
  get {σ : Type} [Connection σ] : π → σ → Loan × π × σ
  /-- Give a handle back. -/
  release : π → Handle → π
  /-- Drop the idle handles and hand out none from now on. -/
  close : π → π
  status : π → PoolStatus
  status_build (table : String) (maxSize : Nat) : status (build table maxSize) = { table, maxSize }
  get_closed {σ : Type} [Connection σ] {p : π} (s : σ) :
    (status p).closed = true → get p s = (.failed .closed, p, s)
  /-- If there are idle handles, one of them is recycled and handed out, whatever the connection. -/
  get_recycled {p : π} : (status p).closed = false → (status p).idle ≠ [] →
    ∃ h idle p', (status p).idle.Perm (h :: idle) ∧ status p' = { status p with idle } ∧
      ∀ {σ : Type} [Connection σ] (s : σ),
        get p s = (.lent (TableManager.recycle h s).1, p', (TableManager.recycle h s).2)
  /-- If there are none, a handle is created, as long as there are fewer than allowed. -/
  get_created {p : π} :
    (status p).closed = false → (status p).idle = [] → (status p).size < (status p).maxSize →
      ∃ p', status p' = { status p with size := (status p).size + 1 } ∧
        ∀ {σ : Type} [Connection σ] {s s' : σ} {h : Handle},
          TableManager.create (status p).table s = .ok h s' → get p s = (.lent h, p', s')
  get_uncreated {σ : Type} [Connection σ] {p : π} {s s' : σ} {e : StoreError} :
    (status p).closed = false → (status p).idle = [] → (status p).size < (status p).maxSize →
      TableManager.create (status p).table s = .error e s' →
      get p s = (.failed (.backend e), p, s')
  get_full {σ : Type} [Connection σ] {p : π} (s : σ) :
    (status p).closed = false → (status p).idle = [] → (status p).maxSize ≤ (status p).size →
      get p s = (.waiting, p, s)
  /-- A handle that comes back is idle. -/
  release_kept {p : π} (h : Handle) : (status p).size ≤ (status p).maxSize →
    ∃ idle, idle.Perm (h :: (status p).idle) ∧ status (release p h) = { status p with idle }
  /-- There is no place for it any more when the pool has been closed. -/
  release_dropped {p : π} (h : Handle) : (status p).maxSize < (status p).size →
    status (release p h) = { status p with size := (status p).size - 1 }
  status_close (p : π) : status (close p) =
    { status p with
      maxSize := 0, size := (status p).size - (status p).idle.length, idle := [], closed := true }

/-- What a checkout comes to. -/
inductive Checkout where
  | granted (h : Handle)
  | refused (e : StoreError)
  /-- All handles are handed out and no further one may be opened. -/
  | waiting

namespace Pooling

variable {π σ : Type} [Pooling π] [Connection σ]

/-- A pool of at most so many handles, at least one. -/
def ofSize (table : String) (maxSize : Nat) : π := build table (max maxSize 1)

/-- Check a handle out. -/
def checkout (p : π) (s : σ) : Checkout × π × σ :=
  match get p s with
  | (.lent h, p, s) => (.granted h, p, s)
  | (.failed e, p, s) => (.refused e.toStore, p, s)
  | (.waiting, p, s) => (.waiting, p, s)

end Pooling

/-- A pool with its idle handles in the order in which they were given back. -/
structure Pool extends PoolStatus

namespace Pool

/-- Take the handle that has been idle longest, or open one. -/
def get {σ : Type} [Connection σ] (p : Pool) (s : σ) : Loan × Pool × σ :=
  if p.closed then (.failed .closed, p, s)
  else
    match p.idle with
    | h :: rest =>
      let (h, s) := TableManager.recycle h s
      (.lent h, { p with idle := rest }, s)
    | [] =>
      if p.size < p.maxSize then
        match TableManager.create p.table s with
        | .ok h s => (.lent h, { p with size := p.size + 1 }, s)
        | .error e s => (.failed (.backend e), p, s)
      else (.waiting, p, s)

def release (p : Pool) (h : Handle) : Pool :=
  if p.size ≤ p.maxSize then { p with idle := p.idle ++ [h] } else { p with size := p.size - 1 }

def close (p : Pool) : Pool :=
  { p with maxSize := 0, size := p.size - p.idle.length, idle := [], closed := true }

@[default_instance]
instance : Pooling Pool where
  build table maxSize := { table, maxSize }
  get := get
  release := release
  close := close
  status p := p.toPoolStatus
  status_build _ _ := rfl
  get_closed s hclosed := by rw [get, if_pos hclosed]
  get_recycled {p} hopen hidle := by
    obtain ⟨h, rest, hrest⟩ := List.exists_cons_of_ne_nil hidle
    refine ⟨h, rest, { p with idle := rest }, by rw [hrest], rfl, fun s => ?_⟩
    simp only [get, hopen, hrest]
    rfl
  get_created {p} hopen hidle hsize := by
    refine ⟨{ p with size := p.size + 1 }, rfl, fun hcreate => ?_⟩
    simp only [get, hopen, hidle, if_pos hsize, hcreate]
    rfl
  get_uncreated hopen hidle hsize hcreate := by
    simp only [get, hopen, hidle, if_pos hsize, hcreate]
    rfl
  get_full s hopen hidle hfull := by
    simp only [get, hopen, hidle, if_neg (Nat.not_lt.2 hfull)]
    rfl
  release_kept {p} h hroom := by
    refine ⟨p.idle ++ [h], List.perm_append_singleton h p.idle, ?_⟩
    rw [release, if_pos hroom]
  release_dropped h hfull := by rw [release, if_neg (Nat.not_le.2 hfull)]
  status_close _ := rfl

/-- A short description of the source of the handles. -/
def describe (table : String) : String :=
  "TableManager \x7b table_name: " ++ Text.quoted table ++ ", .. \x7d"

end Pool

end ColumnConnector
