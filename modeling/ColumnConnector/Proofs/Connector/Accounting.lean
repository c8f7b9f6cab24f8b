import ColumnConnector.Proofs.Connector.Invocations
import Mathlib.Algebra.GroupWithZero.Nat

/-!
# Accounting for invocations

The counters of a connector can be read off its invocations: how each ended, which operation it
carried out on which batch, and which rows came back.  One invocation adds its share to the counters
(`Connector.counters_process`), so after many of them each counter stands at the sum of the shares,
modulo 2⁶⁴ (`Connector.counter_log`).

Between two invocations the connection and the pool may have changed in any way.
-/

namespace ColumnConnector

/-- An exchange that is processed, and the connector before. -/
structure Invocation (σ π : Type) where
  connector : Connector σ π
  exchange : Exchange

namespace Invocation

variable {σ π : Type} [Connection σ] [Pooling π] (i : Invocation σ π)

/-- The inbound message with its missing headers filled in. -/
def message : Message := i.connector.endpoint.fillHeaders i.exchange.input

def plan? : Option Plan := (i.connector.endpoint.plan i.message).toOption

/-- The strategy that is chosen writes any rows. -/
def NeverRefuses : Prop := ∀ p, i.plan? = some p → p.strategy.NeverRefuses

/-- The session on the handle that the pool gives out. -/
def session? : Option (Session σ) :=
  match Pooling.checkout i.connector.pool i.connector.connection with
  | (.granted h, _, connection) => some ⟨connection, h⟩
  | _ => none

def result : Option (Except ConnectorError Unit) := (i.connector.process i.exchange).1

def failed : Bool :=
  match i.result with
  | some (.error _) => true
  | _ => false

/-- Did all go well with an operation of this kind? -/
def succeeded (op : Operation) : Bool :=
  match i.result, i.plan? with
  | some (.ok ()), some p => p.operation = op
  | _, _ => false

def batch : RowBatch := i.plan?.elim [] Plan.batch

/-- The puts that the batch is turned into. -/
def puts : List Put := (i.batch.mapM Row.toPut).toOption.getD []

/-- The rows that come back: those of a get, or of the last scan. -/
def returned : RowBatch :=
  match i.session?, i.plan? with
  | some s, some p =>
    match Work.perform i.connector.endpoint i.message p s with
    | .ok (.fetched rows) _ => rows
    | .ok (.scanned rows) _ => rows
    | _ => []
  | _, _ => []

/-- What the invocation adds to the counters. -/
def share : Counters where
  puts := if i.succeeded .put && !i.batch.isEmpty then 1 else 0
  gets := if i.succeeded .get then 1 else 0
  deletes := if i.succeeded .delete && !i.batch.isEmpty then 1 else 0
  scans := if i.succeeded .scan then 1 else 0
  rowsWritten := if i.succeeded .put then UInt64.ofNat i.batch.length else 0
  rowsDeleted := if i.succeeded .delete then UInt64.ofNat i.batch.length else 0
  rowsReturned :=
    if i.succeeded .get || i.succeeded .scan then UInt64.ofNat i.returned.length else 0
  bytesWritten := if i.succeeded .put then UInt64.ofNat (Put.totalSize i.puts) else 0
  errors := if i.failed then 1 else 0

end Invocation

/-- Counters added up. -/
def Counters.plus (c d : Counters) : Counters where
  puts := c.puts + d.puts
  gets := c.gets + d.gets
  deletes := c.deletes + d.deletes
  scans := c.scans + d.scans
  rowsWritten := c.rowsWritten + d.rowsWritten
  rowsDeleted := c.rowsDeleted + d.rowsDeleted
  rowsReturned := c.rowsReturned + d.rowsReturned
  bytesWritten := c.bytesWritten + d.bytesWritten
  errors := c.errors + d.errors

theorem Put.heapSize_eq_sum (p : Put) :
    p.heapSize = p.row.length + (p.cells.map fun cell =>
      cell.1.family.length + cell.1.qualifier.length + cell.2.length).sum := by
  rw [heapSize]
  induction p.cells with
  | nil => simp
  | cons cell rest ih =>
    rw [List.foldr_cons, ih, List.map_cons, List.sum_cons]
    omega

theorem Put.totalSize_eq_sum (puts : List Put) :
    totalSize puts = (puts.map fun p => p.row.length + (p.cells.map fun cell =>
      cell.1.family.length + cell.1.qualifier.length + cell.2.length).sum).sum := by
  induction puts with
  | nil => rfl
  | cons p rest ih =>
    rw [List.map_cons, List.sum_cons, ← ih, ← heapSize_eq_sum]
    rfl

/-! ### One invocation -/

namespace Invocation

variable {σ π : Type} {i : Invocation σ π}

theorem plan?_eq {p : Plan} (h : i.connector.endpoint.plan i.message = .ok p) :
    i.plan? = some p := by
  rw [plan?, h]
  rfl

theorem batch_eq {p : Plan} (h : i.connector.endpoint.plan i.message = .ok p) :
    i.batch = p.batch := by
  rw [batch, plan?_eq h]
  rfl

theorem puts_eq {puts : List Put} (h : i.batch.mapM Row.toPut = .ok puts) : i.puts = puts := by
  rw [Invocation.puts, h]
  rfl

/-- Where no message can choose a strategy that refuses rows, no invocation does. -/
theorem neverRefuses_of_registry (h : i.connector.endpoint.registry.NeverRefuses) :
    i.NeverRefuses := by
  intro p hp
  exact h.plan (eq_ok_of_toOption hp)

variable [Connection σ] [Pooling π]

theorem session?_eq {handle : Handle} {pool : π} {connection : σ}
    (h : Pooling.checkout i.connector.pool i.connector.connection =
      (.granted handle, pool, connection)) : i.session? = some ⟨connection, handle⟩ := by
  rw [session?, h]

theorem returned_eq {p : Plan} {s s' : Session σ} {outcome : Outcome}
    (hsession : i.session? = some s) (hplan : i.connector.endpoint.plan i.message = .ok p)
    (hperform : Work.perform i.connector.endpoint i.message p s = .ok outcome s') (rows : RowBatch)
    (h : outcome = .fetched rows ∨ outcome = .scanned rows) : i.returned = rows := by
  rcases h with rfl | rfl <;> simp only [returned, hsession, plan?_eq hplan, hperform]

/-- What does not go well is at most one of the errors. -/
theorem share_of_not_ok (h : i.result ≠ some (.ok ())) :
    i.share = { errors := if i.failed then 1 else 0 } := by
  have hnone : ∀ op, i.succeeded op = false := by
    intro op
    rw [succeeded]
    split
    · contradiction
    · rfl
  simp [share, hnone]

/-- What goes well adds to the counters what it came to. -/
theorem plus_share_of_ok {p : Plan} {s s' : Session σ} {outcome : Outcome}
    (hresult : i.result = some (.ok ())) (hsession : i.session? = some s)
    (hplan : i.connector.endpoint.plan i.message = .ok p)
    (hperform : Work.perform i.connector.endpoint i.message p s = .ok outcome s') (c : Counters) :
    c.plus i.share = outcome.record c := by
  have hfailed : i.failed = false := by rw [failed, hresult]
  have hsucceeded : ∀ op, i.succeeded op = decide (p.operation = op) := by
    intro op
    rw [succeeded, hresult, plan?_eq hplan]
  have hbatch : i.batch = p.batch := batch_eq hplan
  have hreturned := returned_eq hsession hplan hperform
  cases Work.achieves_of_perform hperform with
  | idle hop hnil =>
    have hputs : i.puts = [] := puts_eq (by rw [hbatch, hnil]; rfl)
    rcases hop with hop | hop <;>
      simp [Counters.plus, share, hfailed, hsucceeded, hbatch, hop, hnil, hputs, Outcome.record,
        Put.totalSize]
  | @written built s' hop hfull hputs hwrite =>
    have hbuilt : i.puts = built := puts_eq (by rw [hbatch, hputs])
    simp [Counters.plus, share, hfailed, hsucceeded, hbatch, hop, hfull, hbuilt, Outcome.record,
      Counters.recordPut]
  | deleted hop hfull hkeys hdelete =>
    simp [Counters.plus, share, hfailed, hsucceeded, hbatch, hop, hfull, Outcome.record,
      Counters.recordDelete]
  | fetched hop hrows =>
    simp [Counters.plus, share, hfailed, hsucceeded, hop, hreturned _ (.inl rfl), Outcome.record,
      Counters.recordGet]
  | unscanned hop hbound hnil =>
    simp [Counters.plus, share, hfailed, hsucceeded, hop, hreturned _ (.inr rfl), Outcome.record,
      Counters.recordScan]
  | scanned hop hbound hlast hbefore hrows =>
    simp [Counters.plus, share, hfailed, hsucceeded, hop, hreturned _ (.inr rfl), Outcome.record,
      Counters.recordScan]

end Invocation

namespace Connector

variable {σ π : Type} [Connection σ] [Pooling π]

/-- An invocation adds its share to the counters. -/
theorem counters_process (k : Connector σ π) (x : Exchange)
    (hwrites : (⟨k, x⟩ : Invocation σ π).NeverRefuses) :
    (k.process x).2.2.counters = k.counters.plus (Invocation.share ⟨k, x⟩) := by
  have hends := k.ends_process x
  have hresult : (⟨k, x⟩ : Invocation σ π).result = (k.process x).1 := rfl
  generalize k.process x = ending at hends hresult
  have herror : ∀ e, ending.1 = some (.error e) →
      k.counters.plus (Invocation.share ⟨k, x⟩) = k.counters.recordError := by
    intro e he
    rw [Invocation.share_of_not_ok (by rw [hresult, he]; simp), Invocation.failed, hresult, he]
    simp [Counters.plus, Counters.recordError]
  cases hends with
  | waiting =>
    rw [Invocation.share_of_not_ok (by simp [hresult]), Invocation.failed, hresult]
    simp [Counters.plus]
  | refused | unplanned | failed => exact (herror _ rfl).symm
  | unwritten _ hplan _ hrefusal =>
    rw [Outcome.refusal?_eq_none (hwrites _ (Invocation.plan?_eq hplan))] at hrefusal
    cases hrefusal
  | @done handle pool connection plan outcome s hcheckout hplan hperform =>
    have hsession := Invocation.session?_eq (i := ⟨k, x⟩) hcheckout
    exact (Invocation.plus_share_of_ok hresult hsession hplan hperform k.counters).symm

end Connector

/-- What a successful invocation of each kind has done. -/
theorem Invocation.exists_achieves {σ π : Type} [Connection σ] [Pooling π] {i : Invocation σ π}
    {op : Operation} (h : i.succeeded op = true) : ∃ s p outcome s',
      i.session? = some s ∧ i.batch = p.batch ∧ p.operation = op ∧
      Work.Achieves i.connector.endpoint i.message p s outcome s' ∧
      ∀ rows, outcome = .fetched rows ∨ outcome = .scanned rows → i.returned = rows := by
  have hends := i.connector.ends_process i.exchange
  have hresult : i.result = (i.connector.process i.exchange).1 := rfl
  generalize i.connector.process i.exchange = ending at hends hresult
  cases hends with
  | waiting | refused | unplanned | failed | unwritten => simp [succeeded, hresult] at h
  | @done handle pool connection plan outcome s hcheckout hplan hperform =>
    have hsession := session?_eq hcheckout
    have hop : plan.operation = op := by simpa [succeeded, hresult, plan?_eq hplan] using h
    exact ⟨_, plan, outcome, s, hsession, batch_eq hplan, hop, Work.achieves_of_perform hperform,
      returned_eq hsession hplan hperform⟩

/-! ### Many invocations -/

/-- What happens to a connector: it processes an exchange, or others use the connection and the
pool. -/
inductive Happening (σ π : Type) where
  | exchange (x : Exchange)
  | meanwhile (connection : σ) (pool : π)

/-- The sizes of the elements of some kind, one element after the other. -/
theorem ofNat_sum_filter_cons {α : Type} (p : α → Bool) (size : α → Nat) (a : α) (l : List α) :
    UInt64.ofNat (((a :: l).filter p).map size).sum =
      (if p a then UInt64.ofNat (size a) else 0) + UInt64.ofNat ((l.filter p).map size).sum := by
  cases hp : p a <;> simp [hp]

namespace Connector

variable {σ π : Type} [Connection σ] [Pooling π]

/-- The invocations of a connector, and the connector after them. -/
def log : Connector σ π → List (Happening σ π) → List (Invocation σ π) × Connector σ π
  | k, [] => ([], k)
  | k, .exchange x :: rest =>
    (⟨k, x⟩ :: ((k.process x).2.2.log rest).1, ((k.process x).2.2.log rest).2)
  | k, .meanwhile connection pool :: rest => log { k with connection, pool } rest

theorem endpoint_process (k : Connector σ π) (x : Exchange) :
    (k.process x).2.2.endpoint = k.endpoint := by
  have hends := k.ends_process x
  generalize k.process x = ending at hends
  cases hends <;> rfl

/-- The invocations of a connector that knows no strategy that refuses rows. -/
theorem log_neverRefuses {k : Connector σ π} (h : k.endpoint.registry.NeverRefuses)
    (happenings : List (Happening σ π)) : ∀ i ∈ (k.log happenings).1, i.NeverRefuses := by
  induction happenings generalizing k with
  | nil => exact List.forall_mem_nil _
  | cons first rest ih =>
    cases first with
    | exchange x =>
      refine List.forall_mem_cons.2 ⟨Invocation.neverRefuses_of_registry h, ih ?_⟩
      rw [endpoint_process]
      exact h
    | meanwhile connection pool => exact ih (k := { k with connection, pool }) h

/-- A counter to which each invocation of some kind adds its size. -/
theorem counter_log (counter : Counters → UInt64) {counts : Invocation σ π → Bool}
    {size : Invocation σ π → Nat}
    (hstep : ∀ i : Invocation σ π, ∀ c : Counters, counter (c.plus i.share) =
      counter c + if counts i then UInt64.ofNat (size i) else 0)
    (k : Connector σ π) (happenings : List (Happening σ π))
    (hwrites : ∀ i ∈ (k.log happenings).1, i.NeverRefuses) :
    counter (k.log happenings).2.counters = counter k.counters +
      UInt64.ofNat (((k.log happenings).1.filter counts).map size).sum := by
  induction happenings generalizing k with
  | nil => simp [log]
  | cons first rest ih =>
    cases first with
    | exchange x =>
      obtain ⟨hfirst, hrest⟩ := List.forall_mem_cons.1 hwrites
      rw [log, ofNat_sum_filter_cons, ← UInt64.add_assoc, ← hstep, ← counters_process k x hfirst]
      exact ih _ hrest
    | meanwhile connection pool => exact ih { k with connection, pool } hwrites

/-- Since its start a connector has counted the sizes of its invocations, up to 2⁶⁴. -/
theorem toNat_counter_log (counter : Counters → UInt64) {counts : Invocation σ π → Bool}
    {size : Invocation σ π → Nat} (hzero : counter {} = 0)
    (hstep : ∀ i : Invocation σ π, ∀ c : Counters, counter (c.plus i.share) =
      counter c + if counts i then UInt64.ofNat (size i) else 0)
    {e : Endpoint} {connection : σ} {happenings : List (Happening σ π)}
    (hwrites : ∀ i ∈ ((start e connection).log happenings).1, i.NeverRefuses) :
    (counter ((start e connection).log happenings).2.counters).toNat =
      ((((start e connection).log happenings).1.filter counts).map size).sum % 2 ^ 64 := by
  have hstart : counter (start e connection : Connector σ π).counters = 0 := hzero
  rw [counter_log counter hstep _ _ hwrites, hstart, UInt64.zero_add, UInt64.toNat_ofNat']

/-- Since its start a connector has counted its invocations of some kind, up to 2⁶⁴. -/
theorem toNat_count_log (counter : Counters → UInt64) {counts : Invocation σ π → Bool}
    (hzero : counter {} = 0)
    (hstep : ∀ i : Invocation σ π, ∀ c : Counters, counter (c.plus i.share) =
      counter c + if counts i then 1 else 0)
    {e : Endpoint} {connection : σ} {happenings : List (Happening σ π)}
    (hwrites : ∀ i ∈ ((start e connection).log happenings).1, i.NeverRefuses) :
    (counter ((start e connection).log happenings).2.counters).toNat =
      ((start e connection).log happenings).1.countP counts % 2 ^ 64 := by
  have hone : ∀ i : Invocation σ π, ∀ c : Counters, counter (c.plus i.share) =
      counter c + if counts i then UInt64.ofNat 1 else 0 := hstep
  rw [toNat_counter_log counter hzero hone hwrites, List.countP_eq_length_filter]
  simp

/-- From its start on a connector accounts for all its invocations, as long as no strategy refuses
to write the rows of one: the counters are the numbers of
those that failed and of those that went well, by operation, and the sizes of what they wrote,
deleted and returned. -/
theorem log_counters (e : Endpoint) (connection : σ) (happenings : List (Happening σ π))
    (hwrites : ∀ i ∈ ((start e connection).log happenings).1, i.NeverRefuses) :
    let calls := ((start e connection).log happenings).1
    let c := ((start e connection).log happenings).2.counters
    (c.errors.toNat = calls.countP (·.failed) % 2 ^ 64 ∧
      c.puts.toNat = (calls.countP fun i => i.succeeded .put && !i.batch.isEmpty) % 2 ^ 64 ∧
      c.deletes.toNat = (calls.countP fun i => i.succeeded .delete && !i.batch.isEmpty) % 2 ^ 64 ∧
      c.gets.toNat = calls.countP (·.succeeded .get) % 2 ^ 64 ∧
      c.scans.toNat = calls.countP (·.succeeded .scan) % 2 ^ 64) ∧
    (c.rowsWritten.toNat =
        ((calls.filter (·.succeeded .put)).map (·.batch.length)).sum % 2 ^ 64 ∧
      c.rowsDeleted.toNat =
        ((calls.filter (·.succeeded .delete)).map (·.batch.length)).sum % 2 ^ 64 ∧
      c.rowsReturned.toNat = ((calls.filter fun i => i.succeeded .get || i.succeeded .scan).map
        (·.returned.length)).sum % 2 ^ 64 ∧
      c.bytesWritten.toNat = ((calls.filter (·.succeeded .put)).map fun i =>
        (i.puts.map fun p => p.row.length + (p.cells.map fun cell =>
          cell.1.family.length + cell.1.qualifier.length + cell.2.length).sum).sum).sum % 2 ^ 64 ∧
      c.metrics.recordsTotal.toNat =
        (c.rowsWritten.toNat + c.rowsDeleted.toNat + c.rowsReturned.toNat) % 2 ^ 64) ∧
    -- the puts that were flushed and the rows that came back
    ∀ i ∈ calls,
      (i.succeeded .put = true → i.batch ≠ [] → ∃ s s', i.session? = some s ∧
        i.batch.mapM Row.toPut = .ok i.puts ∧ Work.write i.puts s = .ok () s') ∧
      (i.succeeded .get = true → ∃ s s', i.session? = some s ∧
        i.batch.mapM Work.getRow s = .ok i.returned s') ∧
      (i.succeeded .scan = true → i.batch = [] → i.returned = []) ∧
      ∀ earlier template, i.succeeded .scan = true → i.batch = earlier ++ [template] →
        ∃ s bound before s₁ s', i.session? = some s ∧ Work.scanBound i.message = .ok bound ∧
          Work.scanAll i.connector.endpoint.filters (i.message.headerText Header.startRow) bound
            earlier s = .ok before s₁ ∧
          Work.scanRows i.connector.endpoint.filters (i.message.headerText Header.startRow) bound
            template s₁ = .ok i.returned s' := by
  intro calls c
  refine ⟨⟨?_, ?_, ?_, ?_, ?_⟩, ⟨?_, ?_, ?_, ?_, ?_⟩, fun i _ => ⟨?_, ?_, ?_, ?_⟩⟩
  · exact toNat_count_log Counters.errors rfl (fun _ _ => rfl) hwrites
  · exact toNat_count_log Counters.puts rfl (fun _ _ => rfl) hwrites
  · exact toNat_count_log Counters.deletes rfl (fun _ _ => rfl) hwrites
  · exact toNat_count_log Counters.gets rfl (fun _ _ => rfl) hwrites
  · exact toNat_count_log Counters.scans rfl (fun _ _ => rfl) hwrites
  · exact toNat_counter_log Counters.rowsWritten rfl (fun _ _ => rfl) hwrites
  · exact toNat_counter_log Counters.rowsDeleted rfl (fun _ _ => rfl) hwrites
  · exact toNat_counter_log Counters.rowsReturned rfl (fun _ _ => rfl) hwrites
  · simp only [← Put.totalSize_eq_sum]
    exact toNat_counter_log Counters.bytesWritten rfl (fun _ _ => rfl) hwrites
  · simp [Counters.metrics, Nat.add_mod]
  · intro hput hfull
    obtain ⟨s, p, outcome, s', hsession, hbatch, hop, hachieves, -⟩ := i.exists_achieves hput
    rw [hbatch] at hfull
    obtain ⟨puts, hputs, hwrite⟩ := hachieves.exists_write hop hfull
    rw [← hbatch] at hputs
    rw [i.puts_eq hputs]
    exact ⟨s, s', hsession, hputs, hwrite⟩
  · intro hget
    obtain ⟨s, p, outcome, s', hsession, hbatch, hop, hachieves, hreturned⟩ :=
      i.exists_achieves hget
    obtain ⟨rows, hfetched, hrows⟩ := hachieves.exists_fetched hop
    rw [hbatch, hreturned rows (.inl hfetched)]
    exact ⟨s, s', hsession, hrows⟩
  · intro hscan hnil
    obtain ⟨s, p, outcome, s', -, hbatch, hop, hachieves, hreturned⟩ := i.exists_achieves hscan
    exact hreturned [] (.inr (hachieves.scanned_nil hop (hbatch.symm.trans hnil)))
  · intro earlier template hscan hlast
    obtain ⟨s, p, outcome, s', hsession, hbatch, hop, hachieves, hreturned⟩ :=
      i.exists_achieves hscan
    obtain ⟨rows, bound, before, s₁, hscanned, hbound, hbefore, hrows⟩ :=
      hachieves.exists_scanned hop (hbatch.symm.trans hlast)
    rw [hreturned rows (.inr hscanned)]
    exact ⟨s, bound, before, s₁, s', hsession, hbound, hbefore, hrows⟩

/-- A put of one cell, a get of it, and an operation that there is not. -/
theorem log_counters_mixed :
    let exchange (operation : String) : Exchange := { input := { headers := SortedMap.ofList [
      (Header.operation, .str operation), (Header.rowId, .str "r"), (Header.family, .str "f"),
      (Header.qualifier, .str "q"), (Header.value, .str "v")] } }
    let e : Endpoint := { config := { table := "t" } }
    let store := Store.createTable (.keeping 3) "t"
    let happenings : List (Happening Store Pool) := [.exchange (exchange "CamelHBasePut"),
      .exchange (exchange "CamelHBaseGet"), .exchange (exchange "CamelHBaseCount")]
    let calls := ((start e store).log happenings).1
    calls.countP (·.failed) % 2 ^ 64 = 1 ∧
      calls.countP (fun i => i.succeeded .put && !i.batch.isEmpty) % 2 ^ 64 = 1 ∧
      calls.countP (·.succeeded .get) % 2 ^ 64 = 1 ∧
      ((calls.filter (·.succeeded .put)).map (·.batch.length)).sum % 2 ^ 64 = 1 ∧
      ((start e store).log happenings).2.counters =
        { puts := 1, gets := 1, rowsWritten := 1, rowsReturned := 1, bytesWritten := 4,
          errors := 1 } := by
  intro exchange e store happenings calls
  have hcounters : ((start e store).log happenings).2.counters =
      { puts := 1, gets := 1, rowsWritten := 1, rowsReturned := 1, bytesWritten := 4,
        errors := 1 } := by
    decide +kernel
  obtain ⟨⟨herrors, hputs, -, hgets, -⟩, ⟨hwritten, -⟩, -⟩ := log_counters e store happenings
    (log_neverRefuses Registry.neverRefuses_empty happenings)
  rw [hcounters] at herrors hputs hgets hwritten
  exact ⟨herrors.symm, hputs.symm, hgets.symm, hwritten.symm, hcounters⟩

end Connector

end ColumnConnector
