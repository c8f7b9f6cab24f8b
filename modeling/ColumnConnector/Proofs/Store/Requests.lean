import ColumnConnector.Proofs.Store.Session

/-!
# What a request does to the store

Of all requests of a session only four change the store: the clock is set, a table is created, a
handle is flushed, rows are deleted.  `Workspace.store_step` says so in one equation, from which
every invariant of the store is derived.
-/

namespace ColumnConnector.Workspace

variable {π : Type}

/-- The store after a request. -/
def storeAfter (w : Workspace π) : Step → Store
  | .setTime now later => w.store.setTime now later
  | .createTable table => w.store.createTable table
  | .flush name => (w.handles.get? name).elim w.store fun held => w.store.flush held.handle
  | .delete name keys =>
    (w.handles.get? name).elim w.store fun held => w.store.delete held.handle keys
  | _ => w.store

theorem store_withHandle (w : Workspace π) (name : String) (f : Held → Answer π × Workspace π) :
    (w.withHandle name f).2.store =
      (w.handles.get? name).elim w.store fun held => (f held).2.store := by
  rw [withHandle]
  cases w.handles.get? name <;> rfl

/-- A request through a handle that leaves the store alone. -/
theorem store_withHandle_same (w : Workspace π) (name : String) {f : Held → Answer π × Workspace π}
    (hf : ∀ held, (f held).2.store = w.store) : (w.withHandle name f).2.store = w.store := by
  rw [store_withHandle]
  cases w.handles.get? name with
  | none => rfl
  | some held => exact hf held

theorem store_withPool_same (w : Workspace π) (pool : String) {f : π → Answer π × Workspace π}
    (hf : ∀ p, (f p).2.store = w.store) : (w.withPool pool f).2.store = w.store := by
  rw [withPool]
  cases w.pools.get? pool with
  | none => rfl
  | some p => exact hf p

variable [Pooling π]

theorem store_checkout (w : Workspace π) (pool : String) (p : π) (name : String) :
    (w.checkout pool p name).2.store = w.store := by
  obtain ⟨outcome, p', heq, -⟩ := Pooling.checkout_checks p w.store
  rw [checkout, heq]
  cases outcome with
  | granted h => exact drop_store _ name
  | refused e => rfl
  | waiting => rfl

/-- What a request does to the store. -/
theorem store_step (w : Workspace π) (s : Step) : (w.step s).2.store = w.storeAfter s := by
  cases s with
  | setTime now later => rfl
  | createTable table => rfl
  | rowCount table => rfl
  | openPool table maxSize pool => rfl
  | flush name => exact w.store_withHandle name _
  | delete name keys => exact w.store_withHandle name _
  | get name request => exact w.store_withHandle_same name fun held => rfl
  | scan name request => exact w.store_withHandle_same name fun held => rfl
  | openScan name request scan => exact w.store_withHandle_same name fun held => rfl
  | discard name => exact w.store_withHandle_same name fun held => rfl
  | put name puts =>
    refine w.store_withHandle_same name fun held => ?_
    rw [put]
    cases held.handle.buffer puts <;> rfl
  | openTable table name =>
    show (w.openTable table name).2.store = w.store
    rw [openTable]
    cases w.store.openTable table with
    | error e => rfl
    | ok h => exact drop_store w name
  | dump table =>
    simp only [step]
    cases w.store.dump table <;> rfl
  | next scan =>
    simp only [step]
    split <;> rfl
  | close scan =>
    simp only [step]
    split <;> rfl
  | checkout pool name => exact w.store_withPool_same pool fun p => w.store_checkout pool p name
  | release name => exact drop_store w name
  | closePool pool => exact w.store_withPool_same pool fun p => rfl

end ColumnConnector.Workspace
