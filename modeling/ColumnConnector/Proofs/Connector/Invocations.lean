import ColumnConnector.Proofs.Connector.Process

/-!
# Invocations on any connection

Nothing is known here of the connection: it may fail at any request, answer as it likes and open no
handle at all.  What an invocation comes to is then told by its own steps.

`Work.Achieves` lists what a plan has done when it went well, and `Connector.Ends` what processing
an exchange comes to.
-/

namespace ColumnConnector

namespace Work

variable {σ α β : Type}

/-! ### Steps of work that went well -/

theorem bind_eq_ok_iff {action : Work σ α} {f : α → Work σ β} {s s' : Session σ} {b : β} :
    (action >>= f) s = .ok b s' ↔ ∃ a s₁, action s = .ok a s₁ ∧ f a s₁ = .ok b s' := by
  show EStateM.bind action f s = _ ↔ _
  rw [EStateM.bind]
  cases action s with
  | error e s₁ => simp
  | ok a s₁ => simp

theorem map_eq_ok_iff {action : Work σ α} {f : α → β} {s s' : Session σ} {b : β} :
    (f <$> action) s = .ok b s' ↔ ∃ a, action s = .ok a s' ∧ f a = b := by
  show EStateM.map f action s = _ ↔ _
  rw [EStateM.map]
  cases action s with
  | error e s₁ => simp
  | ok a s₁ => simp [and_comm]

theorem ofExcept_eq_ok_iff {outcome : Except ConnectorError α} {s s' : Session σ} {a : α} :
    ofExcept outcome s = .ok a s' ↔ outcome = .ok a ∧ s = s' := by
  cases outcome <;> simp [ofExcept]

theorem pure_eq_ok_iff {s s' : Session σ} {a b : α} :
    (pure a : Work σ α) s = .ok b s' ↔ a = b ∧ s = s' := by
  show EStateM.Result.ok a s = .ok b s' ↔ _
  simp

variable [Connection σ]

theorem scanAll_nil (filters : List FilterTemplate) (start : Option String) (bound : Nat) :
    scanAll (σ := σ) filters start bound [] = pure [] :=
  rfl

/-- Of several scans the rows of the last one are left. -/
theorem scanAll_concat (filters : List FilterTemplate) (start : Option String) (bound : Nat)
    (earlier : RowBatch) (template : Row) :
    scanAll (σ := σ) filters start bound (earlier ++ [template]) = (do
      let _ ← scanAll filters start bound earlier
      scanRows filters start bound template) := by
  simp only [scanAll, List.foldlM_append, List.foldlM_cons, List.foldlM_nil, bind_pure]

/-! ### Plans that went well -/

/-- What a plan has done when it went well, and the session afterwards. -/
inductive Achieves (e : Endpoint) (m : Message) (p : Plan) (s : Session σ) :
    Outcome → Session σ → Prop where
  | idle : p.operation = .put ∨ p.operation = .delete → p.batch = [] → Achieves e m p s .idle s
  | written {puts : List Put} {s' : Session σ} : p.operation = .put → p.batch ≠ [] →
      p.batch.mapM Row.toPut = .ok puts → write puts s = .ok () s' →
      Achieves e m p s
        (.written (UInt64.ofNat p.batch.length) (UInt64.ofNat (Put.totalSize puts))) s'
  | deleted {keys : List Bytes} {s' : Session σ} : p.operation = .delete → p.batch ≠ [] →
      p.batch.mapM Row.key = .ok keys →
      request (fun h => Connection.delete h keys) s = .ok () s' →
      Achieves e m p s (.deleted (UInt64.ofNat p.batch.length)) s'
  | fetched {rows : RowBatch} {s' : Session σ} : p.operation = .get →
      p.batch.mapM getRow s = .ok rows s' → Achieves e m p s (.fetched rows) s'
  | unscanned {bound : Nat} : p.operation = .scan → scanBound m = .ok bound → p.batch = [] →
      Achieves e m p s (.scanned []) s
  | scanned {bound : Nat} {earlier before rows : RowBatch} {template : Row} {s₁ s' : Session σ} :
      p.operation = .scan → scanBound m = .ok bound → p.batch = earlier ++ [template] →
      scanAll e.filters (m.headerText Header.startRow) bound earlier s = .ok before s₁ →
      scanRows e.filters (m.headerText Header.startRow) bound template s₁ = .ok rows s' →
      Achieves e m p s (.scanned rows) s'

variable {e : Endpoint} {m : Message} {p : Plan} {s s' : Session σ} {outcome : Outcome}

/-- Values of the elements are as many as the elements. -/
theorem length_of_outcomes {f : α → Except ConnectorError β} {l : List α} {l' : List β}
    (h : l.mapM f = .ok l') : l'.length = l.length :=
  (mapM_eq_ok_iff.1 h).length_eq.symm

theorem achieves_of_put (hop : p.operation = .put) (h : put p.batch s = .ok outcome s') :
    Achieves e m p s outcome s' := by
  obtain ⟨puts, s₁, hbuilt, hrest⟩ := bind_eq_ok_iff.1 h
  obtain ⟨hputs, rfl⟩ := ofExcept_eq_ok_iff.1 hbuilt
  have hlength := length_of_outcomes hputs
  cases puts with
  | nil =>
    obtain ⟨rfl, rfl⟩ := pure_eq_ok_iff.1 hrest
    exact .idle (.inl hop) (List.eq_nil_of_length_eq_zero hlength.symm)
  | cons first others =>
    obtain ⟨u, s₂, hwrite, hpure⟩ := bind_eq_ok_iff.1 hrest
    obtain ⟨rfl, rfl⟩ := pure_eq_ok_iff.1 hpure
    rw [hlength]
    have hfull : p.batch ≠ [] := List.ne_nil_of_length_pos (by rw [← hlength]; simp)
    exact .written hop hfull hputs hwrite

theorem achieves_of_delete (hop : p.operation = .delete)
    (h : delete p.batch s = .ok outcome s') : Achieves e m p s outcome s' := by
  obtain ⟨keys, s₁, hfound, hrest⟩ := bind_eq_ok_iff.1 h
  obtain ⟨hkeys, rfl⟩ := ofExcept_eq_ok_iff.1 hfound
  have hlength := length_of_outcomes hkeys
  cases keys with
  | nil =>
    obtain ⟨rfl, rfl⟩ := pure_eq_ok_iff.1 hrest
    exact .idle (.inr hop) (List.eq_nil_of_length_eq_zero hlength.symm)
  | cons first others =>
    obtain ⟨u, s₂, hdelete, hpure⟩ := bind_eq_ok_iff.1 hrest
    obtain ⟨rfl, rfl⟩ := pure_eq_ok_iff.1 hpure
    rw [hlength]
    have hfull : p.batch ≠ [] := List.ne_nil_of_length_pos (by rw [← hlength]; simp)
    exact .deleted hop hfull hkeys hdelete

theorem achieves_of_scan (hop : p.operation = .scan)
    (h : scan e.filters m p.batch s = .ok outcome s') : Achieves e m p s outcome s' := by
  obtain ⟨bound, s₁, hread, hrest⟩ := bind_eq_ok_iff.1 h
  obtain ⟨hbound, rfl⟩ := ofExcept_eq_ok_iff.1 hread
  obtain ⟨rows, hrows, rfl⟩ := map_eq_ok_iff.1 hrest
  rcases List.eq_nil_or_concat' p.batch with hbatch | ⟨earlier, template, hbatch⟩
  · rw [hbatch, scanAll_nil] at hrows
    obtain ⟨rfl, rfl⟩ := pure_eq_ok_iff.1 hrows
    exact .unscanned hop hbound hbatch
  · rw [hbatch, scanAll_concat] at hrows
    obtain ⟨before, s₂, hbefore, hlast⟩ := bind_eq_ok_iff.1 hrows
    exact .scanned hop hbound hbatch hbefore hlast

/-- A plan that went well has done one of the listed things. -/
theorem achieves_of_perform (h : perform e m p s = .ok outcome s') :
    Achieves e m p s outcome s' := by
  unfold perform at h
  cases hop : p.operation with
  | put =>
    simp only [hop] at h
    exact achieves_of_put hop h
  | get =>
    simp only [hop] at h
    obtain ⟨rows, hrows, rfl⟩ := map_eq_ok_iff.1 h
    exact .fetched hop hrows
  | delete =>
    simp only [hop] at h
    exact achieves_of_delete hop h
  | scan =>
    simp only [hop] at h
    exact achieves_of_scan hop h

namespace Achieves

variable (h : Achieves e m p s outcome s')
include h

/-- A put of any rows has flushed their puts. -/
theorem exists_write (hop : p.operation = .put) (hfull : p.batch ≠ []) :
    ∃ puts, p.batch.mapM Row.toPut = .ok puts ∧ write puts s = .ok () s' := by
  cases h with
  | @written puts s' _ _ hputs hwrite => exact ⟨puts, hputs, hwrite⟩
  | idle _ hnil => exact absurd hnil hfull
  | _ => simp_all

/-- A get has fetched its rows. -/
theorem exists_fetched (hop : p.operation = .get) :
    ∃ rows, outcome = .fetched rows ∧ p.batch.mapM getRow s = .ok rows s' := by
  cases h with
  | @fetched rows s' _ hrows => exact ⟨rows, rfl, hrows⟩
  | _ => simp_all

/-- A scan by no row has no rows. -/
theorem scanned_nil (hop : p.operation = .scan) (hnil : p.batch = []) : outcome = .scanned [] := by
  cases h with
  | unscanned => rfl
  | _ => simp_all

/-- The rows of a scan are those of the last of its rows. -/
theorem exists_scanned (hop : p.operation = .scan) {earlier : RowBatch} {template : Row}
    (hbatch : p.batch = earlier ++ [template]) :
    ∃ rows bound before s₁, outcome = .scanned rows ∧ scanBound m = .ok bound ∧
      scanAll e.filters (m.headerText Header.startRow) bound earlier s = .ok before s₁ ∧
      scanRows e.filters (m.headerText Header.startRow) bound template s₁ = .ok rows s' := by
  cases h with
  | @scanned bound earlier' before rows template' s₁ s' _ hbound hlast hbefore hrows =>
    obtain ⟨rfl, hone⟩ := List.append_inj' (hlast.symm.trans hbatch) rfl
    cases hone
    exact ⟨rows, bound, before, s₁, rfl, hbound, hbefore, hrows⟩
  | _ => simp_all

/-- Gets and scans have rows, and nothing else has. -/
theorem exists_rows_iff : (∃ rows, outcome = .fetched rows ∨ outcome = .scanned rows) ↔
    p.operation = .get ∨ p.operation = .scan := by
  cases h with
  | idle hop => rcases hop with hop | hop <;> simp [hop]
  | _ => simp_all

end Achieves

end Work

namespace Connector

variable {σ π : Type} [Connection σ] [Pooling π]

/-- What an exchange comes to, with the exchange and the connector afterwards. -/
inductive Ends (k : Connector σ π) (x : Exchange) :
    Option (Except ConnectorError Unit) × Exchange × Connector σ π → Prop where
  | waiting {pool : π} {connection : σ} :
      Pooling.checkout k.pool k.connection = (.waiting, pool, connection) →
      Ends k x (none, x, { k with pool, connection })
  | refused {e : StoreError} {pool : π} {connection : σ} :
      Pooling.checkout k.pool k.connection = (.refused e, pool, connection) →
      Ends k x (some (.error (.store e)), x,
        { k with pool, connection, counters := k.counters.recordError })
  | unplanned {handle : Handle} {pool : π} {connection : σ} {err : ConnectorError} :
      Pooling.checkout k.pool k.connection = (.granted handle, pool, connection) →
      k.endpoint.plan (k.endpoint.fillHeaders x.input) = .error err →
      Ends k x (some (.error err), k.endpoint.fill x,
        { k with
          pool := Pooling.release pool handle, connection
          counters := k.counters.recordError })
  | failed {handle : Handle} {pool : π} {connection : σ} {plan : Plan} {err : ConnectorError}
      {s : Session σ} :
      Pooling.checkout k.pool k.connection = (.granted handle, pool, connection) →
      k.endpoint.plan (k.endpoint.fillHeaders x.input) = .ok plan →
      Work.perform k.endpoint (k.endpoint.fillHeaders x.input) plan ⟨connection, handle⟩ =
        .error err s →
      Ends k x (some (.error err), k.endpoint.fill x,
        { k with
          pool := Pooling.release pool s.handle, connection := s.connection
          counters := k.counters.recordError })
  | unwritten {handle : Handle} {pool : π} {connection : σ} {plan : Plan} {outcome : Outcome}
      {err : ConnectorError} {s : Session σ} :
      Pooling.checkout k.pool k.connection = (.granted handle, pool, connection) →
      k.endpoint.plan (k.endpoint.fillHeaders x.input) = .ok plan →
      Work.perform k.endpoint (k.endpoint.fillHeaders x.input) plan ⟨connection, handle⟩ =
        .ok outcome s →
      outcome.refusal? plan.strategy (k.endpoint.fill x).outbound = some err →
      Ends k x (some (.error err), outcome.deliverTo plan.strategy (k.endpoint.fill x),
        { k with
          pool := Pooling.release pool s.handle, connection := s.connection
          counters := (outcome.record k.counters).recordError })
  | done {handle : Handle} {pool : π} {connection : σ} {plan : Plan} {outcome : Outcome}
      {s : Session σ} :
      Pooling.checkout k.pool k.connection = (.granted handle, pool, connection) →
      k.endpoint.plan (k.endpoint.fillHeaders x.input) = .ok plan →
      Work.perform k.endpoint (k.endpoint.fillHeaders x.input) plan ⟨connection, handle⟩ =
        .ok outcome s →
      outcome.refusal? plan.strategy (k.endpoint.fill x).outbound = none →
      Ends k x (some (.ok ()), outcome.deliverTo plan.strategy (k.endpoint.fill x),
        { k with
          pool := Pooling.release pool s.handle, connection := s.connection
          counters := outcome.record k.counters })

theorem ends_process (k : Connector σ π) (x : Exchange) : k.Ends x (k.process x) := by
  unfold process
  rcases hcheckout : Pooling.checkout k.pool k.connection with ⟨checkout, pool, connection⟩
  cases checkout with
  | waiting => exact .waiting hcheckout
  | refused e => exact .refused hcheckout
  | granted handle =>
    simp only [invoke]
    cases hplan : k.endpoint.plan (k.endpoint.fillHeaders x.input) with
    | error err => exact .unplanned hcheckout hplan
    | ok plan =>
      dsimp only
      cases hperform : Work.perform k.endpoint (k.endpoint.fillHeaders x.input) plan
          ⟨connection, handle⟩ with
      | error err s => exact .failed hcheckout hplan hperform
      | ok outcome s =>
        cases hrefusal : outcome.refusal? plan.strategy (k.endpoint.fill x).outbound with
        | none =>
          rw [Endpoint.fill] at hrefusal
          simp only [hrefusal]
          exact .done hcheckout hplan hperform hrefusal
        | some err =>
          rw [Endpoint.fill] at hrefusal
          simp only [hrefusal]
          exact .unwritten hcheckout hplan hperform hrefusal

end Connector

end ColumnConnector
