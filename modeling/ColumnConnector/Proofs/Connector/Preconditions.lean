import ColumnConnector.Proofs.Connector.Process
import ColumnConnector.Proofs.Invocation.Gets

/-!
# Preconditions

A put and a get need a key, cells and both parts of every column, and a delete needs a key.  No
exchange goes well with a row that lacks what its operation needs (`Work.Performs.meets`).

A put and a delete look at all their rows before they turn to the store, so what they fail with does
not depend on what is stored.  A get looks at a row right before it asks for it: the rows in front
of the first one that lacks something are read, and a stored value that does not decode comes before
the missing field (`Connector.process_violation_fails`).
-/

namespace ColumnConnector

/-- The row has what the operation needs. -/
def Row.Meets (r : Row) : Operation → Prop
  | .put | .get => r.Gettable
  | .delete => ∃ key, r.HasKey key
  | .scan => True

/-- What a row that is to be put or got lacks first. -/
inductive Row.Lacks (r : Row) : String → Prop where
  | id : r.id = none → Lacks r "HBase row id"
  | cells {key : Bytes} : r.HasKey key → r.cells = [] → Lacks r "HBase cells"
  | family {key : Bytes} {before after : List Cell} {c : Cell} :
      r.HasKey key → r.cells = before ++ c :: after →
      (∀ d ∈ before, ∃ column, d.column = .ok column) → c.family = none →
      Lacks r "HBase column family"
  | qualifier {key : Bytes} {before after : List Cell} {c : Cell} :
      r.HasKey key → r.cells = before ++ c :: after →
      (∀ d ∈ before, ∃ column, d.column = .ok column) → c.family ≠ none → c.qualifier = none →
      Lacks r "HBase column"

/-! ### What is missing -/

theorem Cell.column_eq_error_iff {c : Cell} {err : ConnectorError} :
    c.column = .error err ↔
      (c.family = none ∧ err = .missingField "HBase column family") ∨
        (c.family ≠ none ∧ c.qualifier = none ∧ err = .missingField "HBase column") := by
  unfold column
  cases c.family with
  | none => simp [eq_comm]
  | some family =>
    cases c.qualifier with
    | none => simp [eq_comm]
    | some qualifier => simp

namespace Row

variable {r : Row} {err : ConnectorError}

theorem keyOfCells_eq_error_iff :
    r.keyOfCells = .error err ↔
      (r.id = none ∧ err = .missingField "HBase row id") ∨
        (∃ key, r.HasKey key) ∧ r.cells = [] ∧ err = .missingField "HBase cells" := by
  cases hid : r.id with
  | none =>
    have hkey : r.keyOfCells = .error (.missingField "HBase row id") := by
      rw [keyOfCells, key, hid]
      rfl
    rw [hkey]
    simp [HasKey, hid, eq_comm]
  | some v =>
    have hhas : ∃ key, r.HasKey key := ⟨v.encode, v, hid, rfl⟩
    have hkey : r.key = .ok v.encode := key_eq_ok_iff.2 ⟨v, hid, rfl⟩
    rw [keyOfCells, hkey]
    cases hcells : r.cells with
    | nil =>
      constructor
      · intro h
        cases h
        exact .inr ⟨hhas, rfl, rfl⟩
      · rintro (⟨h, -⟩ | ⟨-, -, rfl⟩)
        · cases h
        · rfl
    | cons c rest =>
      constructor
      · intro h
        cases h
      · rintro (⟨h, -⟩ | ⟨-, h, -⟩) <;> cases h

/-- A row that cannot be made a get lacks something, and that is all. -/
theorem toGet_eq_error_iff :
    r.toGet = .error err ↔ ∃ field, r.Lacks field ∧ err = .missingField field := by
  rw [toGet, bind_eq_error_iff, keyOfCells_eq_error_iff]
  -- The key and the cells are looked at before the columns, and these in their order.
  constructor
  · rintro ((⟨hid, rfl⟩ | ⟨⟨key, hkey⟩, hcells, rfl⟩) | ⟨key, hkey, h⟩)
    · exact ⟨_, .id hid, rfl⟩
    · exact ⟨_, .cells hkey hcells, rfl⟩
    · obtain ⟨hkey, -⟩ := keyOfCells_eq_ok_iff.1 hkey
      rcases bind_eq_error_iff.1 h with hcolumns | ⟨_, _, hpure⟩
      · obtain ⟨before, c, after, hcells, hbefore, hc⟩ := mapM_eq_error_iff.1 hcolumns
        rcases Cell.column_eq_error_iff.1 hc with ⟨hfamily, rfl⟩ | ⟨hfamily, hqualifier, rfl⟩
        · exact ⟨_, .family hkey hcells hbefore hfamily, rfl⟩
        · exact ⟨_, .qualifier hkey hcells hbefore hfamily hqualifier, rfl⟩
      · cases hpure
  · have hcolumn : ∀ {key before c after e}, r.HasKey key → r.cells = before ++ c :: after →
        (∀ d ∈ before, ∃ column, d.column = .ok column) → c.column = .error e →
        ∃ key, r.keyOfCells = .ok key ∧
          (r.cells.mapM Cell.column >>= fun columns => pure { row := key, columns }) =
            (.error e : Except ConnectorError Get) := by
      intro key before c after e hkey hcells hbefore hc
      refine ⟨key, keyOfCells_eq_ok_iff.2 ⟨hkey, by simp [hcells]⟩, bind_eq_error_iff.2 (.inl ?_)⟩
      exact mapM_eq_error_iff.2 ⟨before, c, after, hcells, hbefore, hc⟩
    rintro ⟨field, hlacks, rfl⟩
    cases hlacks with
    | id hid => exact .inl (.inl ⟨hid, rfl⟩)
    | cells hkey hcells => exact .inl (.inr ⟨⟨_, hkey⟩, hcells, rfl⟩)
    | family hkey hcells hbefore hfamily =>
      exact .inr (hcolumn hkey hcells hbefore (Cell.column_eq_error_iff.2 (.inl ⟨hfamily, rfl⟩)))
    | qualifier hkey hcells hbefore hfamily hqualifier =>
      exact .inr (hcolumn hkey hcells hbefore
        (Cell.column_eq_error_iff.2 (.inr ⟨hfamily, hqualifier, rfl⟩)))

theorem gettable_iff : r.Gettable ↔ ∃ g, r.toGet = .ok g := by
  constructor
  · intro hr
    obtain ⟨key, hkey⟩ := hr.key
    obtain ⟨columns, htoGet, -⟩ := hr.exists_toGet hkey
    exact ⟨_, htoGet⟩
  · rintro ⟨g, htoGet⟩
    obtain ⟨key, hkey, h⟩ := bind_eq_ok_iff.1 htoGet
    obtain ⟨columns, hcolumns, -⟩ := bind_eq_ok_iff.1 h
    obtain ⟨hhas, hcells⟩ := keyOfCells_eq_ok_iff.1 hkey
    exact ⟨⟨key, hhas⟩, hcells, exists_mapM_ok_iff.1 ⟨columns, hcolumns⟩⟩

theorem not_gettable_iff : ¬ r.Gettable ↔ ∃ field, r.Lacks field := by
  rw [gettable_iff, ← exists_error_iff]
  simp only [toGet_eq_error_iff]
  constructor
  · rintro ⟨_, field, hlacks, -⟩
    exact ⟨field, hlacks⟩
  · rintro ⟨field, hlacks⟩
    exact ⟨_, field, hlacks, rfl⟩

/-- Whatever is stored, a row that lacks something is not looked for. -/
theorem Lacks.found_eq {field : String} (h : r.Lacks field) (s : Store) (handle : Handle) :
    r.found s handle = .error (.missingField field) := by
  rw [found, toGet_eq_error_iff.2 ⟨field, h, rfl⟩]
  rfl

theorem Writes.gettable {p : Put} (h : r.Writes p) : r.Gettable :=
  gettable_iff.2 ⟨_, h.toGet⟩

theorem gettable_of_found {s : Store} {handle : Handle} {found : Row}
    (h : r.found s handle = .ok found) : r.Gettable := by
  obtain ⟨g, htoGet, -⟩ := bind_eq_ok_iff.1 h
  exact gettable_iff.2 ⟨g, htoGet⟩

/-- Every newest version that the row asks for decodes. -/
def Readable (versions : View) (r : Row) : Prop :=
  ∀ key, r.HasKey key → ∀ c ∈ r.cells, ∀ e, ¬ c.Unreadable (versions key) e

theorem Gettable.exists_found_iff_readable (hr : r.Gettable) {s : Store} {handle : Handle} :
    (∃ found, r.found s handle = .ok found) ↔ r.Readable (s.versions handle.table) := by
  obtain ⟨key, hkey⟩ := hr.key
  rw [← not_iff_not, ← exists_error_iff, hr.exists_found_error_iff hkey]
  constructor
  · rintro ⟨c, hc, e, hunreadable⟩ hreadable
    exact hreadable key hkey c hc e hunreadable
  · intro hnot
    by_contra hnone
    apply hnot
    intro key' hkey' c hc e hunreadable
    obtain ⟨v, hv, rfl⟩ := hkey
    obtain ⟨v', hv', rfl⟩ := hkey'
    cases hv.symm.trans hv'
    exact hnone ⟨c, hc, e, hunreadable⟩

end Row

/-- The first row of the batch that cannot be read fails with the error. -/
def RowBatch.FirstUnreadable (versions : View) (batch : RowBatch) (e : ConversionError) : Prop :=
  ∃ first r rest key, batch = first ++ r :: rest ∧ (∀ q ∈ first, q.Readable versions) ∧
    r.HasKey key ∧ r.FirstUnreadable (versions key) e

/-- A batch with a row that lacks something is not found. -/
theorem RowBatch.exists_found_error {before after : RowBatch} {r : Row} {field : String}
    (hr : r.Lacks field) {s : Store} {handle : Handle} :
    ∃ err, (before ++ r :: after).mapM (Row.found s handle) = .error err := by
  rw [exists_error_iff, exists_mapM_ok_iff]
  intro hall
  obtain ⟨found, hfound⟩ := hall r (by simp)
  rw [hr.found_eq] at hfound
  cases hfound

/-- The rows in front of the first one that lacks something are read before it is looked at. -/
theorem RowBatch.found_eq_error_iff {before after : RowBatch} {r : Row} {field : String}
    (hbefore : ∀ q ∈ before, q.Gettable) (hr : r.Lacks field) {s : Store} {handle : Handle}
    {err : ConnectorError} :
    (before ++ r :: after).mapM (Row.found s handle) = .error err ↔
      (err = .missingField field ∧ ∀ q ∈ before, q.Readable (s.versions handle.table)) ∨
        ∃ e, err = .conversion e ∧ before.FirstUnreadable (s.versions handle.table) e := by
  have hread : (∃ found, before.mapM (Row.found s handle) = .ok found) ↔
      ∀ q ∈ before, q.Readable (s.versions handle.table) := by
    rw [exists_mapM_ok_iff]
    apply forall₂_congr
    intro q hq
    exact (hbefore q hq).exists_found_iff_readable
  have hunread : before.mapM (Row.found s handle) = .error err ↔
      ∃ e, err = .conversion e ∧ before.FirstUnreadable (s.versions handle.table) e := by
    rw [mapM_eq_error_iff]
    constructor
    · rintro ⟨first, q, rest, rfl, hfirst, hq⟩
      have hgettable : q.Gettable := hbefore q (by simp)
      obtain ⟨key, hkey⟩ := hgettable.key
      obtain ⟨e, rfl, hunreadable⟩ := (hgettable.found_eq_error_iff hkey).1 hq
      refine ⟨e, rfl, first, q, rest, key, rfl, fun q' hq' => ?_, hkey, hunreadable⟩
      exact (hbefore q' (by simp [hq'])).exists_found_iff_readable.1 (hfirst q' hq')
    · rintro ⟨e, rfl, first, q, rest, key, rfl, hfirst, hkey, hunreadable⟩
      have hq := ((hbefore q (by simp)).found_eq_error_iff hkey).2 ⟨e, rfl, hunreadable⟩
      refine ⟨first, q, rest, rfl, fun q' hq' => ?_, hq⟩
      exact (hbefore q' (by simp [hq'])).exists_found_iff_readable.2 (hfirst q' hq')
  rw [← hunread, ← hread, mapM_append_cons_eq_error_iff (hr.found_eq s handle), or_comm, and_comm]

/-! ### Plans -/

theorem RowBatch.gettable_of_puts {batch : RowBatch} {puts : List Put}
    (h : batch.mapM Row.toPut = .ok puts) : ∀ r ∈ batch, r.Gettable := by
  intro r hr
  obtain ⟨put, hput⟩ := exists_mapM_ok_iff.1 ⟨puts, h⟩ r hr
  exact (Row.toPut_eq_ok_iff.1 hput).gettable

theorem RowBatch.hasKey_of_keys {batch : RowBatch} {keys : List Bytes}
    (h : batch.mapM Row.key = .ok keys) : ∀ r ∈ batch, ∃ key, r.HasKey key := by
  intro r hr
  obtain ⟨key, hkey⟩ := exists_mapM_ok_iff.1 ⟨keys, h⟩ r hr
  exact ⟨key, Row.key_eq_ok_iff.1 hkey⟩

namespace Work

variable {e : Endpoint} {m : Message} {p : Plan} {s s' : Session Store}

/-- Where all goes well, no row lacks anything. -/
theorem Performs.meets {outcome : Outcome} (h : Performs e m p s (.ok outcome s')) :
    ∀ r ∈ p.batch, r.Meets p.operation := by
  intro r hr
  cases h with
  | written hop hputs _ _ =>
    rw [hop]
    exact RowBatch.gettable_of_puts hputs r hr
  | deleted hop hkeys _ =>
    rw [hop]
    exact RowBatch.hasKey_of_keys hkeys r hr
  | idle _ hbatch =>
    rw [hbatch] at hr
    cases hr
  | fetched hop hrows =>
    rw [hop]
    obtain ⟨found, hfound⟩ := exists_mapM_ok_iff.1 ⟨_, hrows⟩ r hr
    exact Row.gettable_of_found hfound
  | scanned hop _ =>
    rw [hop]
    trivial

/-- A put or a delete of a row that lacks something fails in the same way at every store. -/
theorem exists_performs_error (hviolates : ∃ r ∈ p.batch, ¬ r.Meets p.operation)
    (hop : p.operation ≠ .get) : ∃ err, ∀ s, Performs e m p s (.error err s) := by
  obtain ⟨r, hr, hlacks⟩ := hviolates
  cases hcase : p.operation with
  | put =>
    cases hputs : p.batch.mapM Row.toPut with
    | error err => exact ⟨err, fun _ => .unbuilt hcase hputs⟩
    | ok puts =>
      rw [hcase] at hlacks
      exact absurd (RowBatch.gettable_of_puts hputs r hr) hlacks
  | delete =>
    cases hkeys : p.batch.mapM Row.key with
    | error err => exact ⟨err, fun _ => .unkeyed hcase hkeys⟩
    | ok keys =>
      rw [hcase] at hlacks
      exact absurd (RowBatch.hasKey_of_keys hkeys r hr) hlacks
  | get => exact absurd hcase hop
  | scan =>
    rw [hcase] at hlacks
    exact absurd trivial hlacks

end Work

/-- The first row that lacks something stands behind rows that lack nothing. -/
theorem RowBatch.exists_first_lacking {batch : RowBatch} (h : ∃ r ∈ batch, ¬ r.Gettable) :
    ∃ before r after field, batch = before ++ r :: after ∧ (∀ q ∈ before, q.Gettable) ∧
      r.Lacks field := by
  obtain ⟨r, hr, hnot⟩ := h
  induction batch with
  | nil => cases hr
  | cons first rest ih =>
    by_cases hfirst : first.Gettable
    · rcases List.mem_cons.1 hr with rfl | hr
      · exact absurd hfirst hnot
      · obtain ⟨before, q, after, field, rfl, hbefore, hq⟩ := ih hr
        exact ⟨first :: before, q, after, field, rfl, List.forall_mem_cons.2 ⟨hfirst, hbefore⟩, hq⟩
    · obtain ⟨field, hlacks⟩ := Row.not_gettable_iff.1 hfirst
      exact ⟨[], first, rest, field, rfl, List.forall_mem_nil _, hlacks⟩

namespace Connector

variable {π : Type} [Pooling π] {k : Connector Store π} {x : Exchange} {p : Plan}

theorem meets_of_process_ok (hplan : k.endpoint.plan (k.endpoint.fillHeaders x.input) = .ok p)
    (h : (k.process x).1 = some (.ok ())) : ∀ r ∈ p.batch, r.Meets p.operation := by
  generalize hresult : k.process x = result at h
  cases processed_of_process_eq hresult with
  | done _ hplan' hperforms =>
    rw [hplan] at hplan'
    cases hplan'
    exact hperforms.meets
  | _ => cases h

/-- What fails in the same way at every store fails in the same way in every exchange. -/
theorem process_eq_of_performs_error {err : ConnectorError}
    (hplan : k.endpoint.plan (k.endpoint.fillHeaders x.input) = .ok p)
    (herr : ∀ s, Work.Performs k.endpoint (k.endpoint.fillHeaders x.input) p s (.error err s))
    {s s' : Store} (htable : s.tables.contains (Pooling.status k.pool).table =
      s'.tables.contains (Pooling.status k.pool).table) :
    ({ k with connection := s }.process x).1 = ({ k with connection := s' }.process x).1 := by
  -- Whatever the checkout comes to at one store, it comes to at the other.
  obtain ⟨checkout, pool, hcheckout, hchecks⟩ := Pooling.checkout_checks k.pool s
  have hcheckout' := Pooling.checkout_congr hcheckout htable
  cases checkout with
  | waiting =>
    cases hchecks.pool_eq_of_not_granted (by simp)
    rw [process_eq_of_processed (k := { k with connection := s }) (.waiting hcheckout),
      process_eq_of_processed (k := { k with connection := s' }) (.waiting hcheckout')]
  | refused e =>
    cases hchecks.pool_eq_of_not_granted (by simp)
    rw [process_eq_of_processed (k := { k with connection := s }) (.refused hcheckout),
      process_eq_of_processed (k := { k with connection := s' }) (.refused hcheckout')]
  | granted handle =>
    rw [process_eq_of_processed (k := { k with connection := s })
        (.failed hcheckout hplan (herr _)),
      process_eq_of_processed (k := { k with connection := s' })
        (.failed hcheckout' hplan (herr _))]

/-- A get of rows that cannot all be found ends with what is wrong with the first of them. -/
theorem process_get_of_unfound {handle : Handle} {pool : π} {err : ConnectorError}
    (hcheckout : Pooling.checkout k.pool k.connection = (.granted handle, pool, k.connection))
    (hplan : k.endpoint.plan (k.endpoint.fillHeaders x.input) = .ok p) (hop : p.operation = .get)
    (hrows : p.batch.mapM (Row.found k.connection handle) = .error err) :
    (k.process x).1 = some (.error err) := by
  rw [process_eq_of_processed (.failed hcheckout hplan (.unfetched hop hrows))]

/-- An exchange with a row that lacks what its operation needs never goes well.  A put and a delete
end in the same way whatever the table holds.  A get ends with the missing field of the first such
row if the rows in front of it can be read, else with what is wrong with the first of those that
cannot. -/
theorem process_violation_fails
    (hplan : k.endpoint.plan (k.endpoint.fillHeaders x.input) = .ok p)
    (hviolates : ∃ r ∈ p.batch, ¬ r.Meets p.operation) :
    (∀ s : Store, ({ k with connection := s }.process x).1 ≠ some (.ok ())) ∧
      (p.operation ≠ .get → ∀ s s' : Store,
        s.tables.contains (Pooling.status k.pool).table =
            s'.tables.contains (Pooling.status k.pool).table →
        ({ k with connection := s }.process x).1 = ({ k with connection := s' }.process x).1) ∧
      (p.operation = .get → ∃ (before : RowBatch) (r : Row) (after : RowBatch) (field : String),
        p.batch = before ++ r :: after ∧ (∀ q ∈ before, q.Gettable) ∧ r.Lacks field ∧
        ∀ (s : Store) (handle : Handle) (pool : π),
          Pooling.checkout k.pool s = (.granted handle, pool, s) →
          ∀ err, ({ k with connection := s }.process x).1 = some (.error err) ↔
            (err = .missingField field ∧ ∀ q ∈ before, q.Readable (s.versions handle.table)) ∨
              ∃ e, err = .conversion e ∧ before.FirstUnreadable (s.versions handle.table) e) := by
  refine ⟨?_, ?_, ?_⟩
  · intro s hok
    obtain ⟨r, hr, hlacks⟩ := hviolates
    exact hlacks (meets_of_process_ok (k := { k with connection := s }) hplan hok r hr)
  · intro hop s s' htable
    obtain ⟨err, herr⟩ := Work.exists_performs_error hviolates hop
    exact process_eq_of_performs_error hplan herr htable
  · intro hop
    rw [hop] at hviolates
    obtain ⟨before, r, after, field, hbatch, hbefore, hr⟩ :=
      RowBatch.exists_first_lacking hviolates
    refine ⟨before, r, after, field, hbatch, hbefore, hr, ?_⟩
    intro s handle pool hcheckout err
    rw [← RowBatch.found_eq_error_iff hbefore hr, ← hbatch]
    obtain ⟨err', herr⟩ : ∃ err', p.batch.mapM (Row.found s handle) = .error err' := by
      rw [hbatch]
      exact RowBatch.exists_found_error hr
    rw [process_get_of_unfound (k := { k with connection := s }) hcheckout hplan hop herr, herr]
    simp

/-- The second row of a put has no qualifier: the put fails at every store that has the table. -/
theorem process_violation_fails_put :
    let c : Cell := { family := some "f", value := some (.utf8 "v") }
    let batch : RowBatch := [
      { id := some (.utf8 "a"), cells := [{ c with qualifier := some "q" }] },
      { id := some (.utf8 "b"), cells := [{ c with qualifier := some "q" }, c] }]
    let k : Connector Store :=
      .start { config := { table := "t", strategyName := some "body" } } (Store.createTable {} "t")
    let x : Exchange := { input := { body := some (RowBatch.toJson batch) } }
    ∀ s : Store, s.tables.contains "t" = true →
      ({ k with connection := s }.process x).1 = some (.error (.missingField "HBase column")) := by
  intro c batch k x s htable
  have hplan : k.endpoint.plan (k.endpoint.fillHeaders x.input) =
      .ok ⟨.put, BodyMapping.strategy, batch⟩ := by
    subst k c batch x
    rfl
  have hlacks : ∃ r ∈ batch, ¬ r.Meets .put := by
    have hlacks : ∀ r : Row, r.id = some (.utf8 "b") →
        r.cells = [{ c with qualifier := some "q" }, c] → r.Lacks "HBase column" :=
      fun r hid hcells => .qualifier ⟨_, hid, rfl⟩ (show r.cells = [_] ++ c :: [] from hcells)
        (List.forall_mem_singleton.2 ⟨_, rfl⟩) (Option.some_ne_none _) rfl
    exact ⟨_, List.mem_cons_of_mem _ List.mem_cons_self,
      Row.not_gettable_iff.2 ⟨_, hlacks _ rfl rfl⟩⟩
  obtain ⟨-, hsame, -⟩ := process_violation_fails hplan hlacks
  have hthere : (Store.createTable {} "t").tables.contains "t" = true := by decide +kernel
  rw [hsame (by decide) s (Store.createTable {} "t") (htable.trans hthere.symm)]
  subst k c batch x
  decide +kernel

/-- The second row of a get has no identifier.  What is stored in the row before it decides how the
get fails: without the column a field is missing, with three bytes of text in it they are not a
number. -/
theorem process_get_violation_depends_on_store :
    let c : Cell := { family := some "f", qualifier := some "q" }
    let batch : RowBatch := [
      { id := some (.utf8 "r"), cells := [{ c with valueType := some .int64 }] }, { cells := [c] }]
    let k : Connector Store :=
      .start { config := { table := "t", operation := some .get, strategyName := some "body" } }
        (Store.createTable {} "t")
    let x : Exchange := { input := { body := some (RowBatch.toJson batch) } }
    let s : Store := k.connection.commit "t" ⟨[114], [(⟨[102], [113]⟩, [97, 98, 99])]⟩
    k.endpoint.plan (k.endpoint.fillHeaders x.input) = .ok ⟨.get, BodyMapping.strategy, batch⟩ ∧
      (∃ r ∈ batch, ¬ r.Meets .get) ∧ s.tables.contains "t" = true ∧
      (k.process x).1 = some (.error (.missingField "HBase row id")) ∧
      ({ k with connection := s }.process x).1 =
        some (.error (.conversion (.invalidLength .int64 3))) := by
  intro c batch k x s
  have hplan : k.endpoint.plan (k.endpoint.fillHeaders x.input) =
      .ok ⟨.get, BodyMapping.strategy, batch⟩ := by
    subst k c batch x
    rfl
  have hthere : s.tables.contains "t" = true := by
    subst s k
    decide +kernel
  refine ⟨hplan, ?_, hthere, ?_, ?_⟩
  · exact ⟨_, List.mem_cons_of_mem _ List.mem_cons_self, Row.not_gettable_iff.2 ⟨_, .id rfl⟩⟩
  · subst k c batch x
    decide +kernel
  · obtain ⟨pool, hcheckout⟩ : ∃ pool,
        Pooling.checkout k.pool s = (.granted { table := "t" }, pool, s) :=
      Pooling.granted_of_ofSize _ _ hthere
    refine process_get_of_unfound (k := { k with connection := s }) hcheckout hplan rfl ?_
    subst s k c batch x
    decide +kernel

end Connector

end ColumnConnector
