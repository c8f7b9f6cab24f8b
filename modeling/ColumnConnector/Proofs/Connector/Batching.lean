import ColumnConnector.Mapping.Body
import ColumnConnector.Proofs.Connector.Headers
import ColumnConnector.Proofs.Connector.Reachable
import ColumnConnector.Proofs.Mapping.Batches

/-!
# One batch or many messages

A batch in a body may as well be sent row by row.  The one message has all its puts buffered and
flushes them together; each of the many flushes its own.  Timestamps are given out one put at a time
while a flush goes on, so both write the same puts under the same timestamps, and the store cannot
tell them apart.  Neither can the counters, but for the number of puts that were carried out.

The step is a message with one row (`Connector.Sound.process_putOne`), which leaves a handle for the
next message.
-/

namespace ColumnConnector

/-- The results of exchanges processed one after the other, and the connector at the end. -/
def Connector.processAll {σ π : Type} [Connection σ] [Pooling π] :
    Connector σ π → List Exchange → List (Option (Except ConnectorError Unit)) × Connector σ π
  | k, [] => ([], k)
  | k, x :: rest =>
    ((k.process x).1 :: ((k.process x).2.2.processAll rest).1,
      ((k.process x).2.2.processAll rest).2)

/-! ### Puts in the body -/

/-- The message is a put of these rows, given in its body. -/
structure Endpoint.PutsBody (e : Endpoint) (m : Message) (rows : RowBatch) : Prop where
  operation : Endpoint.operationOf (e.fillHeaders m) = .ok .put
  strategy : e.registry.choose (e.fillHeaders m) = .ok BodyMapping.strategy
  rows : BodyMapping.resolve m = .ok rows

namespace BodyMapping

theorem resolve_eq_ok_iff {m : Message} {batch : RowBatch} :
    resolve m = .ok batch ↔ ∃ body, m.body = some body ∧ RowBatch.ofJson? body = some batch := by
  unfold resolve
  cases m.body with
  | none => simp
  | some body => cases hbatch : RowBatch.ofJson? body <;> simp [hbatch]

end BodyMapping

/-- What is read of a batch is read of its items, each as a batch of its own. -/
theorem RowBatch.exists_singles {j : Json} {batch : RowBatch} (h : ofJson? j = some batch) :
    ∃ items : List Json, List.Forall₂
      (fun r item => ofJson? (.obj [("rows", .arr [item])]) = some [r]) batch items := by
  have hitems : ∃ items : List Json, items.mapM Row.ofJson? = some batch := by
    unfold ofJson? at h
    split at h
    · obtain ⟨given, -, hgiven⟩ := Option.bind_eq_some_iff.1 h
      unfold Json.list? at hgiven
      split at hgiven
      · next items => exact ⟨items, hgiven⟩
      · cases hgiven
    · cases h
  obtain ⟨items, hitems⟩ := hitems
  refine ⟨items, ?_⟩
  clear h
  induction items generalizing batch with
  | nil =>
    cases hitems
    exact .nil
  | cons item rest ih =>
    rw [List.mapM_cons] at hitems
    obtain ⟨r, hr, hbind⟩ := Option.bind_eq_some_iff.1 hitems
    obtain ⟨rows, hrows, hpure⟩ := Option.bind_eq_some_iff.1 hbind
    cases hpure
    have hsingle : ofJson? (.obj [("rows", .arr [item])]) = some [r] := by
      show [item].mapM Row.ofJson? = some [r]
      rw [List.mapM_cons, hr]
      rfl
    exact .cons hsingle (ih hrows)

namespace Endpoint

theorem fillHeader_setBody (name : String) (value : Option Json) (m : Message) (body : Json) :
    fillHeader name value (m.setBody body) = (fillHeader name value m).setBody body := by
  cases value with
  | none => rfl
  | some j =>
    show (m.setBody body).defaultHeader name j = (m.defaultHeader name j).setBody body
    unfold Message.defaultHeader
    have hsame : (m.setBody body).hasHeader name = m.hasHeader name := rfl
    rw [hsame]
    split <;> rfl

theorem fillHeaders_setBody (e : Endpoint) (m : Message) (body : Json) :
    e.fillHeaders (m.setBody body) = (e.fillHeaders m).setBody body := by
  simp only [fillHeaders, fillHeader_setBody]

namespace PutsBody

variable {e : Endpoint} {m : Message} {rows : RowBatch} (h : e.PutsBody m rows)
include h

/-- Another body makes a put of other rows. -/
theorem setBody {body : Json} {rows' : RowBatch} (hbody : RowBatch.ofJson? body = some rows') :
    e.PutsBody (m.setBody body) rows' where
  operation := by
    rw [fillHeaders_setBody]
    exact h.operation
  strategy := by
    rw [fillHeaders_setBody]
    exact h.strategy
  rows := BodyMapping.resolve_eq_ok_iff.2 ⟨body, rfl, hbody⟩

/-- There are messages with the same headers for the single rows. -/
theorem exists_singles : ∃ ys : List Exchange, List.Forall₂
    (fun r y => y.input.headers = m.headers ∧ e.PutsBody y.input [r]) rows ys := by
  obtain ⟨body, -, hbatch⟩ := BodyMapping.resolve_eq_ok_iff.1 h.rows
  obtain ⟨items, hitems⟩ := RowBatch.exists_singles hbatch
  refine ⟨items.map fun item => { input := m.setBody (.obj [("rows", .arr [item])]) }, ?_⟩
  rw [List.forall₂_map_right_iff]
  exact hitems.imp fun r item hitem => ⟨rfl, h.setBody hitem⟩

theorem plan_eq : e.plan (e.fillHeaders m) =
    .ok ⟨.put, BodyMapping.strategy, rows.map fun r => r.apply e.config.rowModel⟩ := by
  obtain ⟨body, hbody, hbatch⟩ := BodyMapping.resolve_eq_ok_iff.1 h.rows
  have hrows : BodyMapping.resolve (e.fillHeaders m) = .ok rows :=
    BodyMapping.resolve_eq_ok_iff.2 ⟨body, (body_fillHeaders e m).trans hbody, hbatch⟩
  exact plan_eq_ok_of_resolve h.operation h.strategy hrows

end PutsBody

end Endpoint

/-! ### One message after the other -/

/-- The message is planned as a put of a single row, which is written as `p`. -/
structure Endpoint.PutsOne (e : Endpoint) (m : Message) (p : Put) : Prop where
  planned : ∃ strategy row,
    e.plan (e.fillHeaders m) = .ok ⟨.put, strategy, [row]⟩ ∧ row.toPut = .ok p
  keyed : p.row ≠ []

/-- Counting puts one by one. -/
theorem Counters.foldl_recordPut (puts : List Put) (c : Counters) :
    puts.foldl (fun c p => c.recordPut 1 (UInt64.ofNat p.heapSize)) c =
      { c with
        puts := c.puts + UInt64.ofNat puts.length
        rowsWritten := c.rowsWritten + UInt64.ofNat puts.length
        bytesWritten := c.bytesWritten + UInt64.ofNat (Put.totalSize puts) } := by
  induction puts generalizing c with
  | nil =>
    show c = _
    simp [Put.totalSize]
  | cons p rest ih =>
    have hlength : UInt64.ofNat (p :: rest).length = 1 + UInt64.ofNat rest.length := by
      rw [List.length_cons, Nat.add_comm, UInt64.ofNat_add]
      rfl
    have hsize : UInt64.ofNat (Put.totalSize (p :: rest)) =
        UInt64.ofNat p.heapSize + UInt64.ofNat (Put.totalSize rest) := UInt64.ofNat_add _ _
    rw [List.foldl_cons, ih, hlength, hsize]
    simp only [recordPut, UInt64.add_assoc]

namespace Connector

variable {π : Type} [Pooling π] {k : Connector Store π}

/-- A handle is to be had. -/
def Grants (k : Connector Store π) : Prop :=
  ∃ handle pool, Pooling.checkout k.pool k.connection = (.granted handle, pool, k.connection)

/-- A message with one row commits its put, and there is a handle again. -/
theorem Sound.process_putOne (hk : k.Sound) (hgrants : k.Grants) {y : Exchange} {p : Put}
    (hy : k.endpoint.PutsOne y.input p) :
    ∃ k', k.process y = (some (.ok ()), k.endpoint.fill y, k') ∧ k'.Sound ∧ k'.Grants ∧
      k'.endpoint = k.endpoint ∧
      k'.connection = k.connection.commit k.endpoint.config.table p ∧
      k'.counters = k.counters.recordPut 1 (UInt64.ofNat p.heapSize) := by
  obtain ⟨handle, pool, hcheckout⟩ := hgrants
  have hchecks := Pooling.checks_of_checkout_eq hcheckout
  obtain ⟨strategy, row, hplan, hput⟩ := hy.planned
  have hputs : [row].mapM Row.toPut = .ok [p] := mapM_eq_ok_iff.2 (.cons hput .nil)
  have hkeyed : ∀ q ∈ [p], q.row ≠ [] := List.forall_mem_singleton.2 hy.keyed
  have hprocessed := Processed.done hcheckout hplan
    (.written rfl hputs (List.cons_ne_nil p []) hkeyed) rfl
  refine ⟨_, process_eq_of_processed hprocessed, hk.processed hprocessed, ?_, rfl, ?_, rfl⟩
  · exact hk.pool.granted_again _ hchecks
  · rw [← hk.pool.table_of_granted hchecks]
    rfl

/-- Messages with one row each commit their puts in order. -/
theorem Sound.processAll_putOne (hk : k.Sound) (hgrants : k.Grants) {ys : List Exchange}
    {puts : List Put} (hys : List.Forall₂ (fun y p => k.endpoint.PutsOne y.input p) ys puts) :
    ∃ k', k.processAll ys = (List.replicate puts.length (some (.ok ())), k') ∧
      k'.connection = puts.foldl (·.commit k.endpoint.config.table) k.connection ∧
      k'.counters =
        puts.foldl (fun c p => c.recordPut 1 (UInt64.ofNat p.heapSize)) k.counters := by
  induction ys generalizing k puts with
  | nil =>
    cases hys
    exact ⟨k, rfl, rfl, rfl⟩
  | cons y rest ih =>
    obtain ⟨p, puts, hy, hrest, rfl⟩ := List.forall₂_cons_left_iff.1 hys
    obtain ⟨k', hprocess, hsound, hgrants', hendpoint, hstore, hcounters⟩ :=
      hk.process_putOne hgrants hy
    rw [← hendpoint] at hrest
    obtain ⟨k'', hall, hstore', hcounters'⟩ := ih hsound hgrants' hrest
    refine ⟨k'', ?_, ?_, ?_⟩
    · rw [processAll, hprocess, hall]
      rfl
    · rw [hstore', hstore, hendpoint]
      rfl
    · rw [hcounters', hcounters]
      rfl

/-- A put of several rows that went well: its puts are committed in order, counted together. -/
theorem Sound.process_put (hk : k.Sound) {x : Exchange} {plan : Plan}
    (hplan : k.endpoint.plan (k.endpoint.fillHeaders x.input) = .ok plan)
    (hop : plan.operation = .put) (hok : (k.process x).1 = some (.ok ())) :
    k.Grants ∧ ∃ puts, plan.batch.mapM Row.toPut = .ok puts ∧ (∀ p ∈ puts, p.row ≠ []) ∧
      (k.process x).2.2.connection =
        puts.foldl (·.commit k.endpoint.config.table) k.connection ∧
      (k.process x).2.2.counters =
        if puts = [] then k.counters
        else k.counters.recordPut (UInt64.ofNat puts.length)
          (UInt64.ofNat (Put.totalSize puts)) := by
  cases h : k.process x with
  | mk result rest =>
  obtain ⟨x', k'⟩ := rest
  rw [h] at hok
  cases hok
  cases processed_of_process_eq h with
  | @done handle pool plan' outcome s hcheckout hplan' hperforms =>
    cases Except.ok.inj (hplan'.symm.trans hplan)
    refine ⟨⟨handle, pool, hcheckout⟩, ?_⟩
    rw [← hk.pool.table_of_granted (Pooling.checks_of_checkout_eq hcheckout)]
    cases hperforms with
    | @written puts _ hputs hne hkeyed =>
      refine ⟨puts, hputs, hkeyed, rfl, ?_⟩
      rw [if_neg hne]
      rfl
    | idle _ hbatch =>
      refine ⟨[], ?_, List.forall_mem_nil _, rfl, rfl⟩
      rw [hbatch]
      rfl
    | deleted hother | fetched hother | scanned hother =>
      exact absurd (hop.symm.trans hother) (by decide)

/-- A put of a batch in the body that goes well, and messages with its rows one by one, processed by
the same connector in the same state: the messages all go well too.  In the end the stores are the
same, versions, timestamps and clock included, and so are all counters but that of the puts.

Rows may come with the same key and the same columns.  Messages with single rows are there: the
headers may be kept, with one row of the batch left in the body. -/
theorem process_batch_eq_rows {k : Connector Store π} (hk : k.Reachable) {x : Exchange}
    {rows : RowBatch} (hx : k.endpoint.PutsBody x.input rows)
    (hok : (k.process x).1 = some (.ok ())) :
    (∃ ys : List Exchange, List.Forall₂
      (fun r y => y.input.headers = x.input.headers ∧ k.endpoint.PutsBody y.input [r]) rows ys) ∧
    ∀ ys : List Exchange, List.Forall₂ (fun r y => k.endpoint.PutsBody y.input [r]) rows ys →
      let one := (k.process x).2.2
      let many := k.processAll ys
      many.1 = List.replicate rows.length (some (.ok ())) ∧
        many.2.connection = one.connection ∧
        many.2.counters =
          { one.counters with puts := k.counters.puts + UInt64.ofNat rows.length } := by
  refine ⟨hx.exists_singles, fun ys hys => ?_⟩
  obtain ⟨hgrants, puts, hputs, hkeyed, hstore, hcounters⟩ :=
    hk.sound.process_put hx.plan_eq rfl hok
  -- Row by row, the message is planned as a put of the row that the batch has there.
  have hwritten : List.Forall₂
      (fun r p => p.row ≠ [] ∧ (r.apply k.endpoint.config.rowModel).toPut = .ok p) rows puts := by
    have hforall := (List.forall₂_and_left _ _).2 ⟨hkeyed, (mapM_eq_ok_iff.1 hputs).flip⟩
    exact List.forall₂_map_left_iff.1 hforall.flip
  have hones : List.Forall₂ (fun y p => k.endpoint.PutsOne y.input p) ys puts := by
    refine (forall₂_comp hys.flip hwritten).imp ?_
    rintro y p ⟨r, hy, hkey, hput⟩
    exact ⟨⟨_, _, hy.plan_eq, hput⟩, hkey⟩
  obtain ⟨k', hall, hstore', hcounters'⟩ := hk.sound.processAll_putOne hgrants hones
  intro one many
  have hlength : rows.length = puts.length := hwritten.length_eq
  have hmany : many = _ := hall
  rw [hmany, hlength]
  refine ⟨rfl, hstore'.trans hstore.symm, ?_⟩
  show k'.counters = { (k.process x).2.2.counters with
    puts := k.counters.puts + UInt64.ofNat puts.length }
  rw [hcounters', Counters.foldl_recordPut, hcounters]
  split
  · next hnil =>
    rw [hnil]
    simp [Put.totalSize]
  · rfl

/-- Three rows, the last of them with the key and the column of the first. -/
theorem process_batch_eq_rows_repeated_key :
    let k : Connector Store :=
      .start { config := { table := "t", strategyName := some "body" } }
        (Store.createTable (.keeping 3) "t")
    let row (id : String) (value : CellValue) : Row :=
      { id := some (.utf8 id),
        cells := [{ family := some "f", qualifier := some "q", value := some value }] }
    let message (rows : RowBatch) : Exchange := { input := { body := some (RowBatch.toJson rows) } }
    let rows := [row "r" (.bool true), row "s" (.bool true), row "r" (.bool false)]
    let many := k.processAll (rows.map fun r => message [r])
    many.1 = [some (.ok ()), some (.ok ()), some (.ok ())] ∧
      many.2.connection.versions "t" [114] ⟨[102], [113]⟩ = [(3, [0]), (1, [255])] ∧
      many.2.counters.rowsWritten = 3 := by
  intro k row message rows many
  have hnone : k.endpoint.PutsBody (message []).input [] := ⟨by decide +kernel, rfl, rfl⟩
  have hputs : ∀ given : RowBatch, RowBatch.ofJson? (RowBatch.toJson given) = some given →
      k.endpoint.PutsBody (message given).input given := fun _ hgiven => hnone.setBody hgiven
  have hreachable : k.Reachable := .start _ (.change (.keeping 3) (.createTable "t"))
  have hok : (k.process (message rows)).1 = some (.ok ()) := by decide +kernel
  have hread : ∀ r ∈ rows, RowBatch.ofJson? (RowBatch.toJson [r]) = some [r] := by
    decide +kernel
  have hsingles : List.Forall₂ (fun r y => k.endpoint.PutsBody y.input [r]) rows
      (rows.map fun r => message [r]) := by
    rw [List.forall₂_map_right_iff, List.forall₂_same]
    exact fun r hr => hputs [r] (hread r hr)
  obtain ⟨-, hrows⟩ := process_batch_eq_rows hreachable (hputs rows (by decide +kernel)) hok
  obtain ⟨hresults, hstore, hcounters⟩ := hrows _ hsingles
  refine ⟨hresults, ?_, ?_⟩
  · rw [hstore]
    decide +kernel
  · rw [hcounters]
    decide +kernel

end Connector

end ColumnConnector
