import ColumnConnector.SortedMap
import ColumnConnector.Store.Pool

/-!
# Checkouts from a store in memory

`Pooling.Checks` lists what a checkout can come to, each case with the state of the pool that leads
to it.  The store itself is never touched, and of the store only whether the table is there counts
(`Pooling.checkout_congr`).  A handle that is granted has nothing buffered.  An open pool has room
for all the handles it has given out (`Pooling.Fits`), so each that comes back is kept
(`Pooling.Fits.regains`).

All of this follows from the laws of pools.  A pool that uses the handle returned first before all
others has its idle handles in this order besides (`Pool.idle_release_of_granted`).
-/

namespace ColumnConnector

namespace Pooling

variable {π : Type} [Pooling π]

/-- What a checkout from a pool on a store comes to, and the pool afterwards. -/
inductive Checks (p : π) (s : Store) : Checkout → π → Prop where
  | closed : (status p).closed = true → Checks p s (.refused PoolError.closed.toStore) p
  | recycled {h : Handle} {idle : List Handle} {p' : π} :
      (status p).closed = false → (status p).idle.Perm (h :: idle) →
      status p' = { status p with idle } → Checks p s (.granted h.cleared) p'
  | created {p' : π} :
      (status p).closed = false → (status p).idle = [] → (status p).size < (status p).maxSize →
      s.tables.contains (status p).table = true →
      status p' = { status p with size := (status p).size + 1 } →
      Checks p s (.granted { table := (status p).table }) p'
  | missing :
      (status p).closed = false → (status p).idle = [] → (status p).size < (status p).maxSize →
      s.tables.contains (status p).table = false →
      Checks p s (.refused (.tableNotFound (status p).table)) p
  | full :
      (status p).closed = false → (status p).idle = [] → (status p).maxSize ≤ (status p).size →
      Checks p s .waiting p

theorem status_ofSize (table : String) (maxSize : Nat) :
    status (ofSize table maxSize : π) = { table, maxSize := max maxSize 1 } :=
  status_build table _

/-- Opening a handle on a store succeeds if the table is there. -/
theorem create_eq (table : String) (s : Store) :
    TableManager.create table s =
      if s.tables.contains table then .ok { table } s else .error (.tableNotFound table) s := by
  unfold TableManager.create
  show Connection.answer (s.openTable table) s = _
  rw [Store.openTable]
  split <;> rfl

/-- A checkout comes to one of the listed cases, the same for all stores that have the table or have
it not. -/
theorem exists_checks (p : π) (s : Store) :
    ∃ outcome p', Checks p s outcome p' ∧ ∀ s' : Store,
      s.tables.contains (status p).table = s'.tables.contains (status p).table →
        checkout p s' = (outcome, p', s') := by
  cases hclosed : (status p).closed with
  | true =>
    refine ⟨_, _, .closed hclosed, fun s' _ => ?_⟩
    rw [checkout, get_closed s' hclosed]
  | false =>
    by_cases hidle : (status p).idle = []
    · rcases Nat.lt_or_ge (status p).size (status p).maxSize with hsize | hsize
      · cases htable : s.tables.contains (status p).table with
        | true =>
          obtain ⟨p', hstatus, hget⟩ := get_created hclosed hidle hsize
          refine ⟨_, _, .created hclosed hidle hsize htable hstatus, fun s' hsame => ?_⟩
          rw [checkout, hget (by rw [create_eq, if_pos hsame.symm])]
        | false =>
          refine ⟨_, _, .missing hclosed hidle hsize htable, fun s' hsame => ?_⟩
          rw [checkout, get_uncreated hclosed hidle hsize
            (by rw [create_eq, if_neg (by rw [← hsame]; exact Bool.false_ne_true)])]
          rfl
      · refine ⟨_, _, .full hclosed hidle hsize, fun s' _ => ?_⟩
        rw [checkout, get_full s' hclosed hidle hsize]
    · obtain ⟨h, idle, p', hperm, hstatus, hget⟩ := get_recycled hclosed hidle
      refine ⟨_, _, .recycled hclosed hperm hstatus, fun s' _ => ?_⟩
      rw [checkout, hget s']
      rfl

/-- A checkout leaves the store as it is and comes to one of the listed cases. -/
theorem checkout_checks (p : π) (s : Store) :
    ∃ outcome p', checkout p s = (outcome, p', s) ∧ Checks p s outcome p' := by
  obtain ⟨outcome, p', hchecks, heq⟩ := exists_checks p s
  exact ⟨outcome, p', heq s rfl, hchecks⟩

theorem checks_of_checkout_eq {p p' : π} {s s' : Store} {outcome : Checkout}
    (h : checkout p s = (outcome, p', s')) : Checks p s outcome p' := by
  obtain ⟨outcome', p'', heq, hchecks⟩ := checkout_checks p s
  cases h.symm.trans heq
  exact hchecks

/-- Of the store only whether the table is there counts. -/
theorem checkout_congr {p p' : π} {s s' : Store} {outcome : Checkout}
    (h : checkout p s = (outcome, p', s))
    (ht : s.tables.contains (status p).table = s'.tables.contains (status p).table) :
    checkout p s' = (outcome, p', s') := by
  obtain ⟨outcome', p'', -, heq⟩ := exists_checks p s
  cases h.symm.trans (heq s rfl)
  exact heq s' ht

/-- Nothing is buffered in a handle that is granted. -/
theorem Checks.pending_eq_nil {p p' : π} {s : Store} {h : Handle}
    (hc : Checks p s (.granted h) p') : h.pending = [] := by
  cases hc <;> rfl

/-- A granted handle was idle before, or its table is there. -/
theorem Checks.table_of_granted {p p' : π} {s : Store} {h : Handle}
    (hc : Checks p s (.granted h) p') :
    (∃ h' ∈ (status p).idle, h'.table = h.table) ∨
      (h.table = (status p).table ∧ s.tables.contains h.table = true) := by
  cases hc with
  | @recycled h' idle _ _ hperm _ => exact .inl ⟨h', hperm.mem_iff.2 List.mem_cons_self, rfl⟩
  | created _ _ _ ht _ => exact .inr ⟨rfl, ht⟩

/-- A checkout that grants no handle leaves the pool as it was. -/
theorem Checks.pool_eq_of_not_granted {p p' : π} {s : Store} {outcome : Checkout}
    (hc : Checks p s outcome p') (hnot : ∀ h, outcome ≠ .granted h) : p' = p := by
  cases hc with
  | recycled => exact absurd rfl (hnot _)
  | created => exact absurd rfl (hnot _)
  | _ => rfl

/-- A pool that grants a handle is open. -/
theorem Checks.closed_eq_false {p p' : π} {s : Store} {h : Handle}
    (hc : Checks p s (.granted h) p') : (status p').closed = false := by
  cases hc with
  | recycled hclosed _ hstatus => rw [hstatus, hclosed]
  | created hclosed _ _ _ hstatus => rw [hstatus, hclosed]

theorem Checks.table_eq {p p' : π} {s : Store} {outcome : Checkout} (hc : Checks p s outcome p') :
    (status p').table = (status p).table := by
  cases hc with
  | recycled _ _ hstatus => rw [hstatus]
  | created _ _ _ _ hstatus => rw [hstatus]
  | _ => rfl

/-- A checkout adds no idle handles. -/
theorem Checks.idle_subset {p p' : π} {s : Store} {outcome : Checkout}
    (hc : Checks p s outcome p') : (status p').idle ⊆ (status p).idle := by
  cases hc with
  | recycled _ hperm hstatus =>
    rw [hstatus]
    exact fun h hm => hperm.mem_iff.2 (List.mem_cons_of_mem _ hm)
  | created _ _ _ _ hstatus =>
    rw [hstatus]
    exact List.Subset.refl _
  | _ => exact List.Subset.refl _

/-- Of an open pool with idle handles, a checkout is granted. -/
theorem granted_of_idle {p : π} (s : Store) (hopen : (status p).closed = false)
    (hidle : (status p).idle ≠ []) : ∃ h p', checkout p s = (.granted h, p', s) := by
  obtain ⟨h, idle, p', -, -, hget⟩ := get_recycled hopen hidle
  refine ⟨h.cleared, p', ?_⟩
  rw [checkout, hget s]
  rfl

/-- From a new pool a checkout is granted, if the table is there. -/
theorem granted_of_ofSize (table : String) (maxSize : Nat) {s : Store}
    (ht : s.tables.contains table = true) :
    ∃ p, checkout (ofSize table maxSize : π) s = (.granted { table }, p, s) := by
  have hstatus : status (ofSize table maxSize : π) = _ := status_ofSize table maxSize
  have hsize : (status (ofSize table maxSize : π)).size <
      (status (ofSize table maxSize : π)).maxSize := by
    rw [hstatus]
    exact Nat.le_max_right maxSize 1
  obtain ⟨p, -, hget⟩ := get_created (by rw [hstatus]) (by rw [hstatus]) hsize
  have hcreate : TableManager.create (status (ofSize table maxSize : π)).table s =
      .ok { table } s := by
    rw [hstatus, create_eq, if_pos ht]
  refine ⟨p, ?_⟩
  rw [checkout, hget hcreate]

theorem table_release (p : π) (h : Handle) : (status (release p h)).table = (status p).table := by
  rcases Nat.lt_or_ge (status p).maxSize (status p).size with hfull | hroom
  · rw [release_dropped h hfull]
  · obtain ⟨idle, -, hstatus⟩ := release_kept h hroom
    rw [hstatus]

/-- An idle handle after a release was idle before, or is the released one. -/
theorem mem_idle_release {p : π} {h h' : Handle} (hm : h' ∈ (status (release p h)).idle) :
    h' ∈ (status p).idle ∨ h' = h := by
  rcases Nat.lt_or_ge (status p).maxSize (status p).size with hfull | hroom
  · rw [release_dropped h hfull] at hm
    exact .inl hm
  · obtain ⟨idle, hperm, hstatus⟩ := release_kept h hroom
    rw [hstatus] at hm
    exact (List.mem_cons.1 (hperm.mem_iff.1 hm)).symm

/-! ### Room -/

/-- An open pool has room for all handles that it has given out. -/
def Fits (p : π) : Prop := (status p).closed = true ∨ (status p).size ≤ (status p).maxSize

/-- A handle that was granted by the pool is idle again: it stands for the idle one that was
recycled, or is the only one, as none was idle. -/
inductive Regains (p : π) (handle : Handle) (p' : π) : Prop where
  | recycled {h : Handle} {rest idle : List Handle} : (status p).idle.Perm (h :: rest) →
      handle = h.cleared → idle.Perm (handle :: rest) → status p' = { status p with idle } →
      Regains p handle p'
  | created : (status p).idle = [] →
      status p' = { status p with size := (status p).size + 1, idle := [handle] } →
      Regains p handle p'

theorem fits_ofSize (table : String) (maxSize : Nat) : Fits (ofSize table maxSize : π) := by
  rw [Fits, status_ofSize]
  exact .inr (Nat.zero_le _)

theorem fits_close (p : π) : Fits (close p) := by
  rw [Fits, status_close]
  exact .inl rfl

namespace Fits

variable {p p' : π} (h : Fits p)
include h

theorem checks {s : Store} {outcome : Checkout} (hc : Checks p s outcome p') : Fits p' := by
  unfold Fits
  cases hc with
  | recycled _ _ hstatus =>
    rw [hstatus]
    exact h
  | created _ _ hsize _ hstatus =>
    rw [hstatus]
    exact .inr hsize
  | _ => exact h

theorem release (handle : Handle) : Fits (Pooling.release p handle) := by
  unfold Fits
  rcases Nat.lt_or_ge (status p).maxSize (status p).size with hfull | hroom
  · rw [release_dropped handle hfull]
    exact .inl (h.resolve_right (Nat.not_le.2 hfull))
  · obtain ⟨idle, -, hstatus⟩ := release_kept handle hroom
    rw [hstatus]
    exact .inr hroom

/-- A handle that was granted and is given back is kept. -/
theorem release_of_granted {s : Store} {handle : Handle} (hc : Checks p s (.granted handle) p') :
    ∃ idle, idle.Perm (handle :: (status p').idle) ∧
      status (Pooling.release p' handle) = { status p' with idle } := by
  have hopen : ¬ (status p').closed = true := by
    rw [hc.closed_eq_false]
    exact Bool.false_ne_true
  exact release_kept handle ((h.checks hc).resolve_left hopen)

/-- So it is back in the pool. -/
theorem regains {s : Store} {handle : Handle} (hc : Checks p s (.granted handle) p') :
    Regains p handle (Pooling.release p' handle) := by
  obtain ⟨idle, hperm, hstatus⟩ := h.release_of_granted hc
  cases hc with
  | recycled _ htaken hrest =>
    rw [hrest] at hperm hstatus
    exact .recycled htaken rfl hperm hstatus
  | created _ hnone _ _ hrest =>
    rw [hrest, hnone] at hperm
    rw [hrest, List.perm_singleton.1 hperm] at hstatus
    exact .created hnone hstatus

end Fits

end Pooling

namespace Pool

/-- A checkout takes the handle that was returned first. -/
theorem checkout_recycled {p : Pool} (s : Store) {h : Handle} {rest : List Handle}
    (hopen : p.closed = false) (hidle : p.idle = h :: rest) :
    Pooling.checkout p s = (.granted h.cleared, { p with idle := rest }, s) := by
  have hget : Pooling.get p s = (.lent h.cleared, { p with idle := rest }, s) := by
    show get p s = _
    simp only [get, hopen, hidle]
    rfl
  rw [Pooling.checkout, hget]

theorem idle_of_granted {p p' : Pool} {s : Store} {handle : Handle}
    (h : Pooling.checkout p s = (.granted handle, p', s)) : p'.idle = p.idle.tail := by
  have hchecks := Pooling.checks_of_checkout_eq h
  cases hidle : p.idle with
  | nil => exact List.subset_nil.1 (hidle ▸ hchecks.idle_subset)
  | cons first rest =>
    have hopen : p.closed = false := by
      cases hchecks with
      | recycled hopen => exact hopen
      | created hopen => exact hopen
    cases h.symm.trans (checkout_recycled s hopen hidle)
    rfl

/-- So a handle that is given back stands behind the others that were idle. -/
theorem idle_release_of_granted {p p' : Pool} (hfits : Pooling.Fits p) {s : Store}
    {handle : Handle} (h : Pooling.checkout p s = (.granted handle, p', s)) :
    (p'.release handle).idle = p.idle.tail ++ [handle] := by
  have hchecks := Pooling.checks_of_checkout_eq h
  have hopen : ¬ p'.closed = true := by
    rw [show p'.closed = false from hchecks.closed_eq_false]
    exact Bool.false_ne_true
  have hroom : p'.size ≤ p'.maxSize := (hfits.checks hchecks).resolve_left hopen
  rw [release, if_pos hroom, ← idle_of_granted h]

end Pool

end ColumnConnector
