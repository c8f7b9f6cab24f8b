import ColumnConnector.Proofs.Connector.Process
import ColumnConnector.Proofs.Store.Versions

/-!
# Connectors in use

A store is filled through requests of any number of clients, and a connector shares its store with
them and its pool with other invocations.  `Store.Reachable` and `Connector.Reachable` are the
states that come about in this way, in any order of steps.

Whatever happens, the handles of the pool are on the table of the endpoint, an open pool has room
for the handles it has given out, and the store keeps at least one version
(`Connector.Reachable.sound`).
-/

namespace ColumnConnector

/-- One request of some client that changes a store. -/
inductive Store.Change (s : Store) : Store → Prop where
  | createTable (name : String) : s.Change (s.createTable name)
  | setTime (now : Int64) (later : List Int64) : s.Change (s.setTime now later)
  | flush (h : Handle) : s.Change (s.flush h)
  | delete (h : Handle) (keys : List Bytes) : s.Change (s.delete h keys)

/-- The stores that requests can bring about. -/
inductive Store.Reachable : Store → Prop where
  | keeping (versions : Nat) : Store.Reachable (.keeping versions)
  | change {s s' : Store} : s.Reachable → s.Change s' → s'.Reachable

namespace Store

theorem Change.maxVersions_eq {s s' : Store} (h : s.Change s') : s'.maxVersions = s.maxVersions := by
  cases h with
  | createTable name => rfl
  | setTime now later => rfl
  | flush h => exact maxVersions_flush s h
  | delete h keys => rfl

theorem Reachable.one_le_maxVersions {s : Store} (h : s.Reachable) : 1 ≤ s.maxVersions := by
  induction h with
  | keeping versions => exact Nat.le_max_right versions 1
  | change _ hchange ih =>
    rw [hchange.maxVersions_eq]
    exact ih

end Store

/-- What a plan does to the store is one request, if anything. -/
theorem Work.Performs.change {e : Endpoint} {m : Message} {p : Plan} {s s' : Session Store}
    {outcome : Outcome} (h : Work.Performs e m p s (.ok outcome s')) :
    s'.connection = s.connection ∨ s.connection.Change s'.connection := by
  cases h with
  | written => exact .inr (.flush _)
  | deleted => exact .inr (.delete _ _)
  | idle => exact .inl rfl
  | fetched => exact .inl rfl
  | scanned => exact .inl rfl

namespace Connector

variable {π : Type} [Pooling π]

/-- The states of a connector.  Others may change the store, take handles from the pool and return
them, and close the pool. -/
inductive Reachable : Connector Store π → Prop where
  | start (e : Endpoint) {s : Store} : s.Reachable → Reachable (.start e s)
  | process {k : Connector Store π} (x : Exchange) : Reachable k → Reachable (k.process x).2.2
  | change {k : Connector Store π} {s : Store} : Reachable k → k.connection.Change s →
      Reachable { k with connection := s }
  | taken {k : Connector Store π} {outcome : Checkout} {pool : π} {s : Store} : Reachable k →
      Pooling.checkout k.pool k.connection = (outcome, pool, s) →
      Reachable { k with pool := pool, connection := s }
  | returned {k : Connector Store π} {h : Handle} : Reachable k →
      h.table = (Pooling.status k.pool).table →
      Reachable { k with pool := Pooling.release k.pool h }
  | closed {k : Connector Store π} : Reachable k →
      Reachable { k with pool := Pooling.close k.pool }

end Connector

/-! ### Pools -/

namespace Pooling

variable {π : Type} [Pooling π]

/-- The handles of a pool are on the table, and an open pool has room for all it has given out. -/
structure Sound (p : π) (table : String) : Prop where
  table_eq : (status p).table = table
  idle_table : ∀ h ∈ (status p).idle, h.table = table
  fits : Fits p

namespace Sound

theorem ofSize (table : String) (maxSize : Nat) :
    Sound (Pooling.ofSize table maxSize : π) table where
  table_eq := by rw [status_ofSize]
  idle_table := by
    intro h hmem
    rw [status_ofSize] at hmem
    exact absurd hmem List.not_mem_nil
  fits := fits_ofSize table maxSize

variable {p : π} {table : String}

/-- The idle handles may come and go, as long as those that come are on the table. -/
theorem of_idle (h : Sound p table) {p' : π} (htable : (status p').table = (status p).table)
    (hidle : ∀ h' ∈ (status p').idle, h' ∈ (status p).idle ∨ h'.table = table)
    (hfits : Fits p') : Sound p' table where
  table_eq := htable.trans h.table_eq
  idle_table := fun h' hmem => (hidle h' hmem).elim (h.idle_table h') id
  fits := hfits

theorem checks (h : Sound p table) {s : Store} {outcome : Checkout} {p' : π}
    (hc : Checks p s outcome p') : Sound p' table :=
  h.of_idle hc.table_eq (fun _ hmem => .inl (hc.idle_subset hmem)) (h.fits.checks hc)

theorem table_of_granted (h : Sound p table) {s : Store} {handle : Handle} {p' : π}
    (hc : Checks p s (.granted handle) p') : handle.table = table := by
  rcases hc.table_of_granted with ⟨h', hmem, heq⟩ | ⟨heq, -⟩
  · rw [← heq]
    exact h.idle_table h' hmem
  · rw [heq]
    exact h.table_eq

theorem release (h : Sound p table) {handle : Handle} (ht : handle.table = table) :
    Sound (Pooling.release p handle) table := by
  refine h.of_idle (table_release p handle) (fun h' hmem => ?_) (h.fits.release handle)
  rcases mem_idle_release hmem with hold | rfl
  · exact .inl hold
  · exact .inr ht

theorem close (h : Sound p table) : Sound (Pooling.close p) table where
  table_eq := by
    rw [status_close]
    exact h.table_eq
  idle_table := by
    intro h' hmem
    rw [status_close] at hmem
    exact absurd hmem List.not_mem_nil
  fits := fits_close p

/-- A handle that was granted and is given back is there for the next checkout. -/
theorem granted_again (hp : Sound p table) {s : Store} {h : Handle} {p' : π} (s' : Store)
    (hc : Checks p s (.granted h) p') :
    ∃ h' p'', checkout (Pooling.release p' h) s' = (.granted h', p'', s') := by
  obtain ⟨idle, hperm, hstatus⟩ := hp.fits.release_of_granted hc
  have hopen : (status (Pooling.release p' h)).closed = false := by
    rw [hstatus]
    exact hc.closed_eq_false
  have hnonempty : (status (Pooling.release p' h)).idle ≠ [] := by
    rw [hstatus]
    rintro rfl
    exact List.not_perm_cons_nil hperm.symm
  exact granted_of_idle s' hopen hnonempty

end Sound

end Pooling

/-! ### Connectors -/

namespace Connector

variable {π : Type} [Pooling π]

/-- What holds of every connector in use. -/
structure Sound (k : Connector Store π) : Prop where
  pool : Pooling.Sound k.pool k.endpoint.config.table
  store : k.connection.Reachable

namespace Sound

theorem start (e : Endpoint) {s : Store} (hs : s.Reachable) :
    (Connector.start e s : Connector Store π).Sound where
  pool := .ofSize e.config.table e.config.poolSize.toNat
  store := hs

variable {k : Connector Store π}

/-- A processed exchange, whatever it came to, leaves the pool and the store in order. -/
theorem processed (h : k.Sound) {x : Exchange}
    {result : Option (Except ConnectorError Unit) × Exchange × Connector Store π}
    (hprocessed : k.Processed x result) : result.2.2.Sound := by
  have hreleased : ∀ handle pool,
      Pooling.checkout k.pool k.connection = (.granted handle, pool, k.connection) →
      Pooling.Sound (Pooling.release pool handle) k.endpoint.config.table := by
    intro handle pool hcheckout
    have hchecks := Pooling.checks_of_checkout_eq hcheckout
    exact (h.pool.checks hchecks).release (h.pool.table_of_granted hchecks)
  cases hprocessed with
  | waiting => exact h
  | refused => exact ⟨h.pool, h.store⟩
  | unplanned hcheckout => exact ⟨hreleased _ _ hcheckout, h.store⟩
  | failed hcheckout => exact ⟨hreleased _ _ hcheckout, h.store⟩
  | unwritten hcheckout => exact ⟨hreleased _ _ hcheckout, h.store⟩
  | @done _ _ _ _ s hcheckout _ hperforms =>
    refine ⟨hreleased _ _ hcheckout, ?_⟩
    show s.Reachable
    rcases hperforms.change with hsame | hchange
    · rw [show s = k.connection from hsame]
      exact h.store
    · exact h.store.change hchange

end Sound

theorem Reachable.sound {k : Connector Store π} (h : k.Reachable) : k.Sound := by
  induction h with
  | start e hs => exact Sound.start e hs
  | process x _ ih => exact ih.processed (processed_of_process_eq rfl)
  | change _ hchange ih => exact ⟨ih.pool, ih.store.change hchange⟩
  | @taken k outcome pool s _ hcheckout ih =>
    obtain ⟨outcome', pool', hcheckout', hchecks⟩ := Pooling.checkout_checks k.pool k.connection
    rw [hcheckout'] at hcheckout
    cases hcheckout
    exact ⟨ih.pool.checks hchecks, ih.store⟩
  | returned _ htable ih => exact ⟨ih.pool.release (htable.trans ih.pool.table_eq), ih.store⟩
  | closed _ ih => exact ⟨ih.pool.close, ih.store⟩

end Connector

end ColumnConnector
