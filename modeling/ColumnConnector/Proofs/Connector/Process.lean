import ColumnConnector.Connector
import ColumnConnector.Proofs.Invocation.Effects
import ColumnConnector.Proofs.Store.Checkout

/-!
# What an exchange comes to

`Connector.Processed` lists what processing an exchange over a store in memory can come to: the
checkout, the plan, one of its steps or the writing of its rows fails, or all goes well.  Each case
says what the exchange and the connector are afterwards; the handle always goes back to the pool as
it was taken out.

Only a strategy of one's own can refuse to write rows; those that are always there never do
(`Registry.builtIn_neverRefuses`).
-/

namespace ColumnConnector

/-- The exchange with the missing headers of its inbound message filled in. -/
def Endpoint.fill (e : Endpoint) (x : Exchange) : Exchange :=
  { x with input := e.fillHeaders x.input }

/-- The exchange with the rows of an outcome on its outbound message, if there are any. -/
def Outcome.deliverTo (outcome : Outcome) (s : Strategy) (x : Exchange) : Exchange :=
  ((outcome.writing? s).map x.deliver).getD x

/-! ### Strategies that write all rows -/

/-- The strategy writes any rows in full. -/
structure Strategy.NeverRefuses (s : Strategy) : Prop where
  get : ∀ rows m, s.refuseGet rows m = none
  scan : ∀ rows m, s.refuseScan rows m = none

namespace Registry

/-- No strategy that a message can choose refuses rows. -/
def NeverRefuses (r : Registry) : Prop := ∀ m s, r.choose m = .ok s → s.NeverRefuses

theorem builtIn_neverRefuses (name : StrategyName) : (builtIn name).NeverRefuses := by
  cases name <;> exact ⟨fun _ _ => rfl, fun _ _ => rfl⟩

/-- It is enough that none of the registered strategies does. -/
theorem neverRefuses_of_registered {r : Registry}
    (h : ∀ name s, r.registered.get? name = some s → s.NeverRefuses) : r.NeverRefuses := by
  intro m s hs
  unfold choose at hs
  split at hs
  · next name _ =>
    cases hget : r.registered.get? name with
    | none => simp [hget] at hs
    | some s' =>
      simp only [hget, Except.ok.injEq] at hs
      exact hs ▸ h name s' hget
  · split at hs
    · cases hs
      exact builtIn_neverRefuses .header
    · split at hs
      · next name _ =>
        cases hs
        exact builtIn_neverRefuses name
      · cases hs

theorem neverRefuses_empty : ({} : Registry).NeverRefuses :=
  neverRefuses_of_registered fun name s hget => by cases hget

/-- The strategy of a plan is one that the message chose. -/
theorem NeverRefuses.plan {e : Endpoint} (h : e.registry.NeverRefuses) {m : Message} {p : Plan}
    (hplan : e.plan m = .ok p) : p.strategy.NeverRefuses := by
  obtain ⟨operation, -, hrest⟩ := bind_eq_ok_iff.1 hplan
  obtain ⟨s, hs, hrest⟩ := bind_eq_ok_iff.1 hrest
  obtain ⟨batch, -, hp⟩ := bind_eq_ok_iff.1 hrest
  cases hp
  exact h m s hs

end Registry

/-! ### Outcomes on the outbound message -/

namespace Outcome

theorem refusal?_eq_none {s : Strategy} (h : s.NeverRefuses) (m : Message) (outcome : Outcome) :
    outcome.refusal? s m = none := by
  cases outcome with
  | fetched rows =>
    cases rows with
    | nil => rfl
    | cons r rest => exact h.get _ m
  | scanned rows =>
    cases rows with
    | nil => rfl
    | cons r rest => exact h.scan _ m
  | _ => rfl

/-- Only rows can be refused. -/
theorem exists_rows_of_refusal? {s : Strategy} {m : Message} {outcome : Outcome}
    {err : ConnectorError} (h : outcome.refusal? s m = some err) :
    ∃ rows, rows ≠ [] ∧ (outcome = .fetched rows ∨ outcome = .scanned rows) := by
  cases outcome with
  | fetched rows =>
    cases rows with
    | nil => cases h
    | cons r rest => exact ⟨_, List.cons_ne_nil r rest, .inl rfl⟩
  | scanned rows =>
    cases rows with
    | nil => cases h
    | cons r rest => exact ⟨_, List.cons_ne_nil r rest, .inr rfl⟩
  | _ => cases h

theorem input_deliverTo (outcome : Outcome) (s : Strategy) (x : Exchange) :
    (outcome.deliverTo s x).input = x.input := by
  rw [deliverTo]
  cases outcome.writing? s <;> rfl

/-- Nothing is written for an outcome without rows. -/
theorem deliverTo_eq_self {outcome : Outcome}
    (h : ∀ rows, outcome = .fetched rows ∨ outcome = .scanned rows → rows = []) (s : Strategy)
    (x : Exchange) : outcome.deliverTo s x = x := by
  cases outcome with
  | fetched rows =>
    rw [h rows (.inl rfl)]
    rfl
  | scanned rows =>
    rw [h rows (.inr rfl)]
    rfl
  | _ => rfl

/-- The strategies that are always there write the rows of gets and scans alike, over the headers of
the inbound message. -/
theorem output_deliverTo {outcome : Outcome} {rows : RowBatch}
    (h : outcome = .fetched rows ∨ outcome = .scanned rows) (hrows : rows ≠ [])
    (name : StrategyName) (x : Exchange) :
    (outcome.deliverTo (Registry.builtIn name) x).output = some ((Registry.builtIn name).writeGet
      rows (x.outputOrNew.overlayHeaders x.input.headers)) := by
  obtain ⟨r, rest, rfl⟩ := List.exists_cons_of_ne_nil hrows
  rcases h with rfl | rfl <;> cases name <;> rfl

end Outcome

namespace Connector

variable {π : Type} [Pooling π]

/-- What an exchange comes to, with the exchange and the connector afterwards. -/
inductive Processed (k : Connector Store π) (x : Exchange) :
    Option (Except ConnectorError Unit) × Exchange × Connector Store π → Prop where
  | waiting : Pooling.checkout k.pool k.connection = (.waiting, k.pool, k.connection) →
      Processed k x (none, x, k)
  | refused {e : StoreError} :
      Pooling.checkout k.pool k.connection = (.refused e, k.pool, k.connection) →
      Processed k x
        (some (.error (.store e)), x, { k with counters := k.counters.recordError })
  | unplanned {handle : Handle} {pool : π} {err : ConnectorError} :
      Pooling.checkout k.pool k.connection = (.granted handle, pool, k.connection) →
      k.endpoint.plan (k.endpoint.fillHeaders x.input) = .error err →
      Processed k x (some (.error err), k.endpoint.fill x,
        { k with pool := Pooling.release pool handle, counters := k.counters.recordError })
  | failed {handle : Handle} {pool : π} {plan : Plan} {err : ConnectorError} :
      Pooling.checkout k.pool k.connection = (.granted handle, pool, k.connection) →
      k.endpoint.plan (k.endpoint.fillHeaders x.input) = .ok plan →
      Work.Performs k.endpoint (k.endpoint.fillHeaders x.input) plan ⟨k.connection, handle⟩
        (.error err ⟨k.connection, handle⟩) →
      Processed k x (some (.error err), k.endpoint.fill x,
        { k with pool := Pooling.release pool handle, counters := k.counters.recordError })
  | unwritten {handle : Handle} {pool : π} {plan : Plan} {outcome : Outcome}
      {err : ConnectorError} :
      Pooling.checkout k.pool k.connection = (.granted handle, pool, k.connection) →
      k.endpoint.plan (k.endpoint.fillHeaders x.input) = .ok plan →
      Work.Performs k.endpoint (k.endpoint.fillHeaders x.input) plan ⟨k.connection, handle⟩
        (.ok outcome ⟨k.connection, handle⟩) →
      outcome.refusal? plan.strategy (k.endpoint.fill x).outbound = some err →
      Processed k x (some (.error err), outcome.deliverTo plan.strategy (k.endpoint.fill x),
        { k with
          pool := Pooling.release pool handle
          counters := (outcome.record k.counters).recordError })
  | done {handle : Handle} {pool : π} {plan : Plan} {outcome : Outcome} {s : Store} :
      Pooling.checkout k.pool k.connection = (.granted handle, pool, k.connection) →
      k.endpoint.plan (k.endpoint.fillHeaders x.input) = .ok plan →
      Work.Performs k.endpoint (k.endpoint.fillHeaders x.input) plan ⟨k.connection, handle⟩
        (.ok outcome ⟨s, handle⟩) →
      outcome.refusal? plan.strategy (k.endpoint.fill x).outbound = none →
      Processed k x (some (.ok ()), outcome.deliverTo plan.strategy (k.endpoint.fill x),
        { k with
          pool := Pooling.release pool handle
          connection := s
          counters := outcome.record k.counters })

/-- Nothing is buffered in a handle that is granted. -/
theorem pending_of_granted {p p' : π} {s s' : Store} {handle : Handle}
    (h : Pooling.checkout p s = (.granted handle, p', s')) : handle.pending = [] :=
  (Pooling.checks_of_checkout_eq h).pending_eq_nil

/-- Each of the listed cases is what the exchange comes to. -/
theorem process_eq_of_processed {k : Connector Store π} {x : Exchange}
    {result : Option (Except ConnectorError Unit) × Exchange × Connector Store π}
    (h : k.Processed x result) : k.process x = result := by
  unfold process
  cases h with
  | waiting hcheckout => rw [hcheckout]
  | refused hcheckout => rw [hcheckout]
  | unplanned hcheckout hplan =>
    rw [hcheckout]
    simp only [invoke, hplan]
    rfl
  | failed hcheckout hplan hperforms =>
    have hperform := Work.perform_eq_of_performs (pending_of_granted hcheckout) hperforms
    rw [hcheckout]
    simp only [invoke, hplan, hperform]
    rfl
  | unwritten hcheckout hplan hperforms hrefusal =>
    have hperform := Work.perform_eq_of_performs (pending_of_granted hcheckout) hperforms
    rw [Endpoint.fill] at hrefusal
    rw [hcheckout]
    simp only [invoke, hplan, hperform, hrefusal]
    rfl
  | done hcheckout hplan hperforms hrefusal =>
    have hperform := Work.perform_eq_of_performs (pending_of_granted hcheckout) hperforms
    rw [Endpoint.fill] at hrefusal
    rw [hcheckout]
    simp only [invoke, hplan, hperform, hrefusal]
    rfl

/-- An exchange comes to one of the listed cases. -/
theorem processed_of_process_eq {k : Connector Store π} {x : Exchange}
    {result : Option (Except ConnectorError Unit) × Exchange × Connector Store π}
    (h : k.process x = result) : k.Processed x result := by
  have hsome : ∃ result, k.Processed x result := by
    obtain ⟨checkout, pool, hcheckout, hchecks⟩ := Pooling.checkout_checks k.pool k.connection
    cases checkout with
    | waiting =>
      cases hchecks.pool_eq_of_not_granted (by simp)
      exact ⟨_, .waiting hcheckout⟩
    | refused e =>
      cases hchecks.pool_eq_of_not_granted (by simp)
      exact ⟨_, .refused hcheckout⟩
    | granted handle =>
      cases hplan : k.endpoint.plan (k.endpoint.fillHeaders x.input) with
      | error err => exact ⟨_, .unplanned hcheckout hplan⟩
      | ok plan =>
        have hperforms := Work.perform_performs (s := ⟨k.connection, handle⟩) k.endpoint
          (k.endpoint.fillHeaders x.input) plan hchecks.pending_eq_nil
        cases hperform : Work.perform k.endpoint (k.endpoint.fillHeaders x.input) plan
            ⟨k.connection, handle⟩ with
        | error err s =>
          rw [hperform] at hperforms
          cases hperforms.session_of_error
          exact ⟨_, .failed hcheckout hplan hperforms⟩
        | ok outcome s =>
          rw [hperform] at hperforms
          cases hrefusal : outcome.refusal? plan.strategy (k.endpoint.fill x).outbound with
          | some err =>
            obtain ⟨rows, -, hrows⟩ := Outcome.exists_rows_of_refusal? hrefusal
            cases hperforms.session_of_rows hrows
            exact ⟨_, .unwritten hcheckout hplan hperforms hrefusal⟩
          | none =>
            obtain ⟨connection, handle'⟩ := s
            cases hperforms.handle_of_ok
            exact ⟨_, .done hcheckout hplan hperforms hrefusal⟩
  obtain ⟨listed, hlisted⟩ := hsome
  rw [← h, process_eq_of_processed hlisted]
  exact hlisted

section Succeeding

variable {k : Connector Store π} {x : Exchange} {p : Plan} {handle : Handle} {pool : π}

/-- A put goes well when each of its rows can be written and none has an empty key. -/
theorem process_put_ok_iff
    (hcheckout : Pooling.checkout k.pool k.connection = (.granted handle, pool, k.connection))
    (hplan : k.endpoint.plan (k.endpoint.fillHeaders x.input) = .ok p) (hop : p.operation = .put) :
    (k.process x).1 = some (.ok ()) ↔
      ∃ puts, p.batch.mapM Row.toPut = .ok puts ∧ ∀ q ∈ puts, q.row ≠ [] := by
  cases hputs : p.batch.mapM Row.toPut with
  | error err =>
    rw [process_eq_of_processed (.failed hcheckout hplan (.unbuilt hop hputs))]
    simp
  | ok puts =>
    by_cases hkey : ∃ q ∈ puts, q.row = []
    · rw [process_eq_of_processed (.failed hcheckout hplan (.emptyKey hop hputs hkey))]
      simpa using hkey
    · have hkeyed : ∀ q ∈ puts, q.row ≠ [] := fun q hq hrow => hkey ⟨q, hq, hrow⟩
      by_cases hnil : puts = []
      · rw [hnil, mapM_eq_ok_iff, List.forall₂_nil_right_iff] at hputs
        rw [process_eq_of_processed (.done hcheckout hplan (.idle (.inl hop) hputs) rfl)]
        simpa using hkeyed
      · rw [process_eq_of_processed (.done hcheckout hplan (.written hop hputs hnil hkeyed) rfl)]
        simpa using hkeyed

/-- A get goes well when each of its rows is found. -/
theorem process_get_ok_iff
    (hcheckout : Pooling.checkout k.pool k.connection = (.granted handle, pool, k.connection))
    (hplan : k.endpoint.plan (k.endpoint.fillHeaders x.input) = .ok p)
    (hwrites : p.strategy.NeverRefuses) (hop : p.operation = .get) :
    (k.process x).1 = some (.ok ()) ↔
      ∀ r ∈ p.batch, ∃ found, r.found k.connection handle = .ok found := by
  rw [← exists_mapM_ok_iff]
  cases hrows : p.batch.mapM (Row.found k.connection handle) with
  | ok rows =>
    rw [process_eq_of_processed
      (.done hcheckout hplan (.fetched hop hrows) (Outcome.refusal?_eq_none hwrites _ _))]
    simp
  | error err =>
    rw [process_eq_of_processed (.failed hcheckout hplan (.unfetched hop hrows))]
    simp

/-- A scan goes well when the rows that it comes to can be read. -/
theorem process_scan_ok_iff
    (hcheckout : Pooling.checkout k.pool k.connection = (.granted handle, pool, k.connection))
    (hplan : k.endpoint.plan (k.endpoint.fillHeaders x.input) = .ok p)
    (hwrites : p.strategy.NeverRefuses) (hop : p.operation = .scan) :
    (k.process x).1 = some (.ok ()) ↔ ∃ rows, p.batch.scanned k.connection handle
      k.endpoint.filters (k.endpoint.fillHeaders x.input) = .ok rows := by
  cases hrows : p.batch.scanned k.connection handle k.endpoint.filters
      (k.endpoint.fillHeaders x.input) with
  | ok rows =>
    rw [process_eq_of_processed
      (.done hcheckout hplan (.scanned hop hrows) (Outcome.refusal?_eq_none hwrites _ _))]
    simp
  | error err =>
    rw [process_eq_of_processed (.failed hcheckout hplan (.unscanned hop hrows))]
    simp

end Succeeding

end Connector

end ColumnConnector
