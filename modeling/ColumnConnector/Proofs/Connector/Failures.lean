import ColumnConnector.Proofs.Connector.Headers
import ColumnConnector.Proofs.Connector.Process

/-!
# Failed invocations

A failure leaves no trace but a count and the headers that were filled in: the store is as it was,
nothing is on the outbound message that was not there, and the handle goes back to the pool with
an empty buffer.

A refused checkout comes before everything else, so that not even headers are filled in.
-/

namespace ColumnConnector

/-- Flushing a handle with an empty buffer does nothing. -/
theorem Store.flush_of_pending_eq_nil (s : Store) {h : Handle} (hp : h.pending = []) :
    s.flush h = s := by
  rw [flush, hp]
  rfl

namespace Connector

variable {π : Type} [Pooling π] {k k' : Connector Store π} {x x' : Exchange} {err : ConnectorError}

/-- A failed invocation changes neither the store nor the outbound message and counts as one error,
unless the strategy is one that refuses rows.  If a handle was taken, it goes back with an empty
buffer, and at most missing headers have been filled in; if none was to be had, the inbound message
and the pool are untouched, too. -/
theorem process_error_atomic (h : k.process x = (some (.error err), x', k'))
    (hwrites : ∀ p, k.endpoint.plan (k.endpoint.fillHeaders x.input) = .ok p →
      p.strategy.NeverRefuses) :
    k'.connection = k.connection ∧ k'.endpoint = k.endpoint ∧ x'.output = x.output ∧
    k'.counters = { k.counters with errors := k.counters.errors + 1 } ∧
    ((∃ e, Pooling.checkout k.pool k.connection = (.refused e, k.pool, k.connection) ∧
        err = .store e ∧ k'.pool = k.pool ∧ x'.input = x.input) ∨
      ∃ handle pool,
        Pooling.checkout k.pool k.connection = (.granted handle, pool, k.connection) ∧
        k'.pool = Pooling.release pool handle ∧ (∀ s : Store, s.flush handle = s) ∧
        x'.input.body = x.input.body ∧
        ∀ name, x'.input.headers.get? name =
          if x.input.hasHeader name then x.input.headers.get? name
          else (k.endpoint.default? name).or (x.input.headers.get? name)) := by
  have hflush : ∀ handle pool,
      Pooling.checkout k.pool k.connection = (.granted handle, pool, k.connection) →
      ∀ s : Store, s.flush handle = s := by
    intro handle pool hcheckout s
    exact s.flush_of_pending_eq_nil (pending_of_granted hcheckout)
  have hbody := Endpoint.body_fillHeaders k.endpoint x.input
  have hheaders := Endpoint.get?_fillHeaders k.endpoint x.input
  cases processed_of_process_eq h with
  | refused hcheckout =>
    exact ⟨rfl, rfl, rfl, rfl, .inl ⟨_, hcheckout, rfl, rfl, rfl⟩⟩
  | unplanned hcheckout hplan =>
    exact ⟨rfl, rfl, rfl, rfl, .inr ⟨_, _, hcheckout, rfl, hflush _ _ hcheckout, hbody, hheaders⟩⟩
  | failed hcheckout hplan hperforms =>
    exact ⟨rfl, rfl, rfl, rfl, .inr ⟨_, _, hcheckout, rfl, hflush _ _ hcheckout, hbody, hheaders⟩⟩
  | unwritten hcheckout hplan hperforms hrefusal =>
    rw [Outcome.refusal?_eq_none (hwrites _ hplan)] at hrefusal
    cases hrefusal

/-- One row of two has an empty key: nothing of the batch is written. -/
theorem process_error_atomic_late_row :
    let k : Connector Store :=
      .start { config := { table := "t", strategyName := some "body" } } (Store.createTable {} "t")
    let cells : List Cell :=
      [{ family := some "f", qualifier := some "q", value := some (.utf8 "v") }]
    let batch : RowBatch := [{ id := some (.utf8 "r"), cells }, { id := some (.utf8 ""), cells }]
    let x : Exchange := { input := { body := some (RowBatch.toJson batch) } }
    (k.process x).1 = some (.error (.store (.request "row key must not be empty"))) ∧
      (k.process x).2.2.connection = k.connection ∧ (k.process x).2.2.counters.errors = 1 := by
  intro k cells batch x
  have herror : (k.process x).1 =
      some (.error (.store (.request "row key must not be empty"))) := by
    subst k cells batch x
    rfl
  have hplan : k.endpoint.plan (k.endpoint.fillHeaders x.input) =
      .ok ⟨.put, BodyMapping.strategy, batch⟩ := by
    subst k cells batch x
    rfl
  have hwrites : ∀ p, k.endpoint.plan (k.endpoint.fillHeaders x.input) = .ok p →
      p.strategy.NeverRefuses := by
    intro p hp
    cases hplan.symm.trans hp
    exact Registry.builtIn_neverRefuses .body
  have hatomic := process_error_atomic (Prod.ext herror rfl : k.process x = (_, _, _)) hwrites
  exact ⟨herror, hatomic.1, congrArg Counters.errors hatomic.2.2.2.1⟩

end Connector

end ColumnConnector
