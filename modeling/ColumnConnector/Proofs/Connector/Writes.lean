import ColumnConnector.Proofs.Connector.Reachable
import ColumnConnector.Proofs.Row.Request
import ColumnConnector.Proofs.Store.Newest

/-!
# What a successful invocation writes

The puts of a batch are one for each row, in order.  Each prepends its cells to the versions of
their columns under a timestamp of its own (`Store.Gains`).  A delete takes the rows of the batch
away as a whole (`Store.Loses`).  Everything else in the store stays, and a get or a scan leaves
all of it.
-/

namespace ColumnConnector

/-- The store `s'` is `s` with the puts written to a table, each under the next timestamp. -/
structure Store.Gains (s : Store) (table : String) (puts : List Put) (s' : Store) : Prop where
  versions : s'.versions table =
    View.putAll s.maxVersions (s.versions table) (puts.zip (s.clock.stamps puts.length))
  untouched : ∀ key column, (∀ p ∈ puts, p.row = key → column ∉ p.cells.map Prod.fst) →
    s'.versions table key column = s.versions table key column
  rows : ∀ key, SortedMap.contains (s'.table table) key =
    (SortedMap.contains (s.table table) key || puts.any fun p => key == p.row)
  otherRows : ∀ key, (∀ p ∈ puts, p.row ≠ key) →
    SortedMap.get? (s'.table table) key = SortedMap.get? (s.table table) key
  otherTables : ∀ other, other ≠ table → s'.tables.get? other = s.tables.get? other
  clock : s'.clock = Clock.tick^[puts.length] s.clock
  maxVersions : s'.maxVersions = s.maxVersions

/-- The store `s'` is `s` without some rows of a table. -/
structure Store.Loses (s : Store) (table : String) (keys : List Bytes) (s' : Store) : Prop where
  rows : ∀ key, SortedMap.get? (s'.table table) key =
    if key ∈ keys then none else SortedMap.get? (s.table table) key
  otherTables : ∀ other, other ≠ table → s'.tables.get? other = s.tables.get? other
  clock : s'.clock = s.clock
  maxVersions : s'.maxVersions = s.maxVersions

namespace Store

theorem gains_flush (s : Store) (h : Handle) : s.Gains h.table h.pending (s.flush h) where
  versions := versions_flush s h
  untouched := by
    intro key column hnot
    rw [versions_flush]
    apply View.putAll_untouched
    intro e he
    exact hnot e.1 (List.of_mem_zip he).1
  rows := contains_flush s h
  otherRows := by
    intro key hkey
    exact get?_flush_row s h hkey
  otherTables := by
    intro other hne
    exact get?_flush_other s h hne
  clock := clock_flush s h
  maxVersions := maxVersions_flush s h

theorem loses_delete (s : Store) (h : Handle) (keys : List Bytes) :
    s.Loses h.table keys (s.delete h keys) where
  rows := by
    intro key
    rw [delete, table_setTable, if_pos rfl, Table.get?_delete]
  otherTables := by
    intro other hne
    exact get?_delete_other s h keys hne
  clock := rfl
  maxVersions := rfl

theorem loses_nil (s : Store) (table : String) : s.Loses table [] s where
  rows := by
    intro key
    rw [if_neg List.not_mem_nil]
  otherTables := by
    intro other _
    rfl
  clock := rfl
  maxVersions := rfl

end Store

/-! ### Plans -/

namespace Work.Performs

variable {e : Endpoint} {m : Message} {p : Plan} {s s' : Session Store} {outcome : Outcome}

/-- A put gains the puts of its rows. -/
theorem gains (h : Performs e m p s (.ok outcome s')) (hop : p.operation = .put) :
    ∃ puts, List.Forall₂ Row.Writes p.batch puts ∧
      s.connection.Gains s.handle.table puts s'.connection := by
  cases h with
  | @written puts _ hputs =>
    refine ⟨puts, (mapM_eq_ok_iff.1 hputs).imp fun _ _ => Row.toPut_eq_ok_iff.1, ?_⟩
    exact s.connection.gains_flush { s.handle with pending := puts }
  | idle _ hbatch =>
    rw [hbatch]
    exact ⟨[], .nil, s.connection.gains_flush { table := s.handle.table }⟩
  | deleted hdelete | fetched hdelete | scanned hdelete =>
    exact absurd (hop.symm.trans hdelete) (by decide)

/-- A delete loses the rows of its keys. -/
theorem loses (h : Performs e m p s (.ok outcome s')) (hop : p.operation = .delete) :
    ∃ keys, List.Forall₂ Row.HasKey p.batch keys ∧
      s.connection.Loses s.handle.table keys s'.connection := by
  cases h with
  | @deleted keys _ hkeys =>
    refine ⟨keys, (mapM_eq_ok_iff.1 hkeys).imp fun _ _ => Row.key_eq_ok_iff.1, ?_⟩
    exact s.connection.loses_delete s.handle keys
  | idle _ hbatch =>
    rw [hbatch]
    exact ⟨[], .nil, s.connection.loses_nil s.handle.table⟩
  | written hput | fetched hput | scanned hput =>
    exact absurd (hop.symm.trans hput) (by decide)

/-- Gets and scans leave the store as it was. -/
theorem store_eq (h : Performs e m p s (.ok outcome s'))
    (hop : p.operation = .get ∨ p.operation = .scan) : s'.connection = s.connection := by
  cases h with
  | written hput | deleted hput => rcases hop with hop | hop <;> cases hop.symm.trans hput
  | idle | fetched | scanned => rfl

end Work.Performs

namespace Connector

variable {π : Type} [Pooling π]

/-- What a put that succeeded has left in the store. -/
theorem Sound.gains_of_put {k k' : Connector Store π} {x x' : Exchange} {p : Plan} (hk : k.Sound)
    (hp : k.endpoint.plan (k.endpoint.fillHeaders x.input) = .ok p) (hop : p.operation = .put)
    (h : k.process x = (some (.ok ()), x', k')) :
    ∃ puts, List.Forall₂ Row.Writes p.batch puts ∧
      k.connection.Gains k.endpoint.config.table puts k'.connection := by
  cases processed_of_process_eq h with
  | done hcheckout hplan hperforms =>
    cases Except.ok.inj (hplan.symm.trans hp)
    rw [← hk.pool.table_of_granted (Pooling.checks_of_checkout_eq hcheckout)]
    exact hperforms.gains hop

/-- What a delete that succeeded has left in the store. -/
theorem Sound.loses_of_delete {k k' : Connector Store π} {x x' : Exchange} {p : Plan}
    (hk : k.Sound) (hp : k.endpoint.plan (k.endpoint.fillHeaders x.input) = .ok p)
    (hop : p.operation = .delete) (h : k.process x = (some (.ok ()), x', k')) :
    ∃ keys, List.Forall₂ Row.HasKey p.batch keys ∧
      k.connection.Loses k.endpoint.config.table keys k'.connection := by
  cases processed_of_process_eq h with
  | done hcheckout hplan hperforms =>
    cases Except.ok.inj (hplan.symm.trans hp)
    rw [← hk.pool.table_of_granted (Pooling.checks_of_checkout_eq hcheckout)]
    exact hperforms.loses hop

/-- What a successful invocation of a connector in use has done to the store.  The rows meant are
those of the plan, which the strategy has read and the row model has completed. -/
theorem process_ok_effect {k k' : Connector Store π} {x x' : Exchange} (hk : k.Reachable)
    (h : k.process x = (some (.ok ()), x', k')) :
    ∃ plan, k.endpoint.plan (k.endpoint.fillHeaders x.input) = .ok plan ∧
      match plan.operation with
      | .put => ∃ puts, List.Forall₂ Row.Writes plan.batch puts ∧
          k.connection.Gains k.endpoint.config.table puts k'.connection
      | .delete => ∃ keys, List.Forall₂ Row.HasKey plan.batch keys ∧
          k.connection.Loses k.endpoint.config.table keys k'.connection
      | .get => k'.connection = k.connection
      | .scan => k'.connection = k.connection := by
  cases processed_of_process_eq h with
  | @done handle pool plan outcome s hcheckout hplan hperforms =>
    refine ⟨plan, hplan, ?_⟩
    rw [← hk.sound.pool.table_of_granted (Pooling.checks_of_checkout_eq hcheckout)]
    cases hop : plan.operation with
    | put => exact hperforms.gains hop
    | get => exact hperforms.store_eq (.inl hop)
    | delete => exact hperforms.loses hop
    | scan => exact hperforms.store_eq (.inr hop)

/-- Two rows of one batch with one key: the value of the second, which is missing, ends up in front
of the value of the first. -/
theorem process_ok_effect_repeated_key :
    let k : Connector Store :=
      .start { config := { table := "t", strategyName := some "body" } }
        (Store.createTable (.keeping 3) "t")
    let cell : Cell := { family := some "f", qualifier := some "q" }
    let first : Row :=
      { id := some (.utf8 "r"), cells := [{ cell with value := some (.bool true) }] }
    let second : Row := { id := some (.utf8 "r"), cells := [cell] }
    let x : Exchange := { input := { body := some (RowBatch.toJson [first, second]) } }
    (k.process x).1 = some (.ok ()) ∧
      (k.process x).2.2.connection.versions "t" [114] ⟨[102], [113]⟩ = [(2, []), (1, [255])] := by
  intro k cell first second x
  have hok : (k.process x).1 = some (.ok ()) := by
    subst k cell first second x
    rfl
  have hreachable : k.Reachable := .start _ (.change (.keeping 3) (.createTable "t"))
  obtain ⟨plan, hplan, heffect⟩ :=
    process_ok_effect hreachable (Prod.ext hok rfl : k.process x = (_, _, _))
  have hput : plan = ⟨.put, BodyMapping.strategy, [first, second]⟩ := by
    refine Except.ok.inj (hplan.symm.trans ?_)
    subst k cell first second x
    rfl
  rw [hput] at heffect
  obtain ⟨puts, hwrites, hgains⟩ := heffect
  have hputs : puts =
      [⟨[114], [(⟨[102], [113]⟩, [255])]⟩, ⟨[114], [(⟨[102], [113]⟩, [])]⟩] := by
    have hmapM := mapM_eq_ok_iff.2 (hwrites.imp fun _ _ => Row.toPut_eq_ok_iff.2)
    refine Except.ok.inj (hmapM.symm.trans ?_)
    subst k cell first second x
    rfl
  refine ⟨hok, ?_⟩
  have hversions := congrFun (congrFun hgains.versions [114]) ⟨[102], [113]⟩
  rw [hputs] at hversions
  refine hversions.trans ?_
  subst k cell first second x
  decide +kernel

end Connector

end ColumnConnector
