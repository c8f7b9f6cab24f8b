import ColumnConnector.Invocation.Work
import ColumnConnector.Proofs.Outcomes

/-!
# What a plan does to a store in memory

Gets and scans look at the store and change nothing, so each has an outcome that can be written
down without a session: `Row.found`, `RowBatch.scanned`.  Puts and deletes change the store in one place
only, after everything that can fail.

`Work.Performs` lists what a plan can come to.  All failures have in common that the store and the
handle are as they were.
-/

namespace ColumnConnector

/-- The row that a get by this row finds. -/
def Row.found (s : Store) (h : Handle) (r : Row) : Except ConnectorError Row := do
  let g ← r.toGet
  (r.ofGet (s.get h g)).mapError .conversion

/-- The first rows that a scan by this row finds. -/
def Row.scanned (s : Store) (h : Handle) (filters : List FilterTemplate) (start : Option String)
    (bound : Nat) (r : Row) : Except ConnectorError RowBatch := do
  let request ← (r.toScan filters start).mapError .conversion
  ((s.scan h request).take bound).mapM fun found => (r.ofScan found).mapError .conversion

/-- The rows that the scans by a batch find, those of the last scan. -/
def RowBatch.scanned (s : Store) (h : Handle) (filters : List FilterTemplate) (m : Message)
    (batch : RowBatch) : Except ConnectorError RowBatch := do
  let bound ← Work.scanBound m
  batch.foldlM (fun _ r => r.scanned s h filters (m.headerText Header.startRow) bound) []

namespace Work

variable {α β : Type}

/-- At this session the action comes to the outcome and changes nothing. -/
def ComesTo (action : Work Store α) (s : Session Store) (outcome : Except ConnectorError α) :
    Prop :=
  action s = ofExcept outcome s

namespace ComesTo

variable {s : Session Store}

theorem ofExcept (outcome : Except ConnectorError α) : (Work.ofExcept outcome).ComesTo s outcome :=
  rfl

theorem pure (a : α) : (Pure.pure a : Work Store α).ComesTo s (.ok a) := rfl

theorem ofConversion (outcome : Except ConversionError α) :
    (Work.ofConversion outcome).ComesTo s (outcome.mapError .conversion) := rfl

theorem bind {action : Work Store α} {outcome : Except ConnectorError α} {f : α → Work Store β}
    {g : α → Except ConnectorError β} (ha : action.ComesTo s outcome)
    (hf : ∀ a, (f a).ComesTo s (g a)) : (action >>= f).ComesTo s (outcome >>= g) := by
  show EStateM.bind action f s = _
  rw [EStateM.bind, show action s = Work.ofExcept outcome s from ha]
  cases outcome with
  | error e => rfl
  | ok a => exact hf a

theorem map {action : Work Store α} {outcome : Except ConnectorError α} (f : α → β)
    (ha : action.ComesTo s outcome) : (f <$> action).ComesTo s (f <$> outcome) := by
  show EStateM.map f action s = _
  rw [EStateM.map, show action s = Work.ofExcept outcome s from ha]
  cases outcome <;> rfl

theorem mapM {f : α → Work Store β} {g : α → Except ConnectorError β}
    (hf : ∀ a, (f a).ComesTo s (g a)) (l : List α) : (l.mapM f).ComesTo s (l.mapM g) := by
  induction l with
  | nil => exact pure []
  | cons a rest ih =>
    rw [List.mapM_cons, List.mapM_cons]
    apply (hf a).bind
    intro b
    apply ih.bind
    intro bs
    exact pure (b :: bs)

theorem foldlM {f : β → α → Work Store β} {g : β → α → Except ConnectorError β}
    (hf : ∀ b a, (f b a).ComesTo s (g b a)) (l : List α) (b : β) :
    (l.foldlM f b).ComesTo s (l.foldlM g b) := by
  induction l generalizing b with
  | nil => exact pure b
  | cons a rest ih =>
    rw [List.foldlM_cons, List.foldlM_cons]
    exact (hf b a).bind ih

theorem closing {action : Work Store α} {outcome : Except ConnectorError α}
    (ha : action.ComesTo s outcome) : (Work.closing action).ComesTo s outcome := by
  show Work.closing action s = _
  rw [Work.closing, show action s = Work.ofExcept outcome s from ha]
  cases outcome <;> rfl

theorem eq_ok_iff {action : Work Store α} {outcome : Except ConnectorError α}
    (ha : action.ComesTo s outcome) {a : α} {s' : Session Store} :
    action s = .ok a s' ↔ s' = s ∧ outcome = .ok a := by
  rw [show action s = Work.ofExcept outcome s from ha]
  cases outcome with
  | error e => simp [Work.ofExcept]
  | ok a' => simp only [Work.ofExcept, EStateM.Result.ok.injEq, Except.ok.injEq, and_comm, eq_comm]

theorem eq_error_iff {action : Work Store α} {outcome : Except ConnectorError α}
    (ha : action.ComesTo s outcome) {e : ConnectorError} {s' : Session Store} :
    action s = .error e s' ↔ s' = s ∧ outcome = .error e := by
  rw [show action s = Work.ofExcept outcome s from ha]
  cases outcome with
  | error e' =>
    simp only [Work.ofExcept, EStateM.Result.error.injEq, Except.error.injEq, and_comm, eq_comm]
  | ok a => simp [Work.ofExcept]

end ComesTo

/-! ### Gets and scans -/

section Looking

variable (s : Session Store)

theorem getRow_comesTo (r : Row) : (getRow r).ComesTo s (r.found s.connection s.handle) := by
  refine (ComesTo.ofExcept r.toGet).bind fun g => ?_
  have hget : (request fun h => Connection.get h g : Work Store StoreResult).ComesTo s
      (.ok (s.connection.get s.handle g)) := rfl
  exact hget.bind fun found => ComesTo.ofConversion (r.ofGet found)

theorem get_comesTo (batch : RowBatch) :
    (get batch).ComesTo s (Outcome.fetched <$> batch.mapM (Row.found s.connection s.handle)) :=
  (ComesTo.mapM (getRow_comesTo s) batch).map Outcome.fetched

/-- A scan is read to its bound or to its end, whichever comes first. -/
theorem collect_comesTo (template : Row) (bound : Nat) (found : List StoreResult) :
    (collect template bound found).ComesTo s
      ((found.take bound).mapM fun r => (template.ofScan r).mapError .conversion) := by
  have hfetch : (request fun _ => Connection.fetch : Work Store Unit).ComesTo s (.ok ()) := rfl
  induction bound generalizing found with
  | zero => exact ComesTo.pure []
  | succ bound ih =>
    cases found with
    | nil => exact hfetch.bind fun _ => ComesTo.pure []
    | cons r rest =>
      rw [List.take_succ_cons, List.mapM_cons]
      have hrest : ∀ row, (collect template bound rest >>= fun rows =>
          pure (row :: rows) : Work Store RowBatch).ComesTo s _ :=
        fun row => (ih rest).bind fun rows => ComesTo.pure (row :: rows)
      exact hfetch.bind fun _ => (ComesTo.ofConversion (template.ofScan r)).bind hrest

theorem scanRows_comesTo (filters : List FilterTemplate) (start : Option String) (bound : Nat)
    (r : Row) :
    (scanRows filters start bound r).ComesTo s
      (r.scanned s.connection s.handle filters start bound) := by
  refine (ComesTo.ofConversion (r.toScan filters start)).bind fun g => ?_
  have hscan : (request fun h => Connection.scan h g : Work Store (List StoreResult)).ComesTo s
      (.ok (s.connection.scan s.handle g)) := rfl
  exact hscan.bind fun found => (collect_comesTo s r bound found).closing

theorem scan_comesTo (filters : List FilterTemplate) (m : Message) (batch : RowBatch) :
    (scan filters m batch).ComesTo s
      (Outcome.scanned <$> batch.scanned s.connection s.handle filters m) := by
  have hscan : (scan filters m batch).ComesTo s (scanBound m >>= fun bound =>
      Outcome.scanned <$> batch.foldlM (fun _ r =>
        r.scanned s.connection s.handle filters (m.headerText Header.startRow) bound) []) := by
    refine (ComesTo.ofExcept (scanBound m)).bind fun bound => ?_
    apply ComesTo.map
    exact ComesTo.foldlM (fun _ r => scanRows_comesTo s filters _ bound r) batch []
  rw [RowBatch.scanned, map_bind]
  exact hscan

end Looking

/-! ### Puts and deletes -/

/-- A put builds all its puts first; then they are flushed, or refused for an empty key. -/
theorem put_eq (batch : RowBatch) (s : Session Store) :
    put batch s =
      match batch.mapM Row.toPut with
      | .error e => .error e s
      | .ok puts =>
        if puts.isEmpty then .ok .idle s
        else if puts.any fun p => p.row.isEmpty then
          .error (.store (.request "row key must not be empty")) ⟨s.connection, s.handle.cleared⟩
        else
          .ok (.written (UInt64.ofNat puts.length) (UInt64.ofNat (Put.totalSize puts)))
            ⟨s.connection.flush { s.handle with pending := s.handle.pending ++ puts },
              s.handle.cleared⟩ := by
  show EStateM.bind (ofExcept (batch.mapM Row.toPut)) _ s = _
  cases hputs : batch.mapM Row.toPut with
  | error e => rfl
  | ok puts =>
    simp only [EStateM.bind, ofExcept]
    by_cases hnil : puts.isEmpty = true
    · simp only [hnil, if_true]
      rfl
    · simp only [if_neg hnil]
      by_cases hkey : (puts.any fun p => p.row.isEmpty) = true
      · have hbuffer : s.handle.buffer puts = .error (.request "row key must not be empty") :=
          if_pos hkey
        have hwrite : write puts s = .error (.store (.request "row key must not be empty"))
            ⟨s.connection, s.handle.cleared⟩ := by
          simp only [write, bind, EStateM.bind, requestHandle, Connection.put, Connection.answer,
            hbuffer]
          rfl
        simp only [if_pos hkey]
        show EStateM.bind (write puts) _ s = _
        simp only [EStateM.bind, hwrite]
      · have hbuffer : s.handle.buffer puts =
            .ok { s.handle with pending := s.handle.pending ++ puts } := if_neg hkey
        have hwrite : write puts s = .ok ()
            ⟨s.connection.flush { s.handle with pending := s.handle.pending ++ puts },
              s.handle.cleared⟩ := by
          simp only [write, bind, EStateM.bind, requestHandle, Connection.put, Connection.answer,
            hbuffer]
          rfl
        simp only [if_neg hkey]
        show EStateM.bind (write puts) _ s = _
        simp only [EStateM.bind, hwrite]
        rfl

/-- A delete finds all its keys first; then their rows are removed. -/
theorem delete_eq (batch : RowBatch) (s : Session Store) :
    delete batch s =
      match batch.mapM Row.key with
      | .error e => .error e s
      | .ok keys =>
        if keys.isEmpty then .ok .idle s
        else .ok (.deleted (UInt64.ofNat keys.length))
          { s with connection := s.connection.delete s.handle keys } := by
  show EStateM.bind (ofExcept (batch.mapM Row.key)) _ s = _
  cases hkeys : batch.mapM Row.key with
  | error e => rfl
  | ok keys =>
    simp only [EStateM.bind, ofExcept]
    by_cases hnil : keys.isEmpty = true
    · simp only [hnil, if_true]
      rfl
    · simp only [if_neg hnil]
      rfl

/-! ### Plans -/

/-- What carrying out a plan comes to, on a handle with nothing buffered: each outcome with what
leads to it, the store being changed by puts and deletes only. -/
inductive Performs (e : Endpoint) (m : Message) (p : Plan) (s : Session Store) :
    EStateM.Result ConnectorError (Session Store) Outcome → Prop where
  | written {puts : List Put} : p.operation = .put → p.batch.mapM Row.toPut = .ok puts →
      puts ≠ [] → (∀ q ∈ puts, q.row ≠ []) →
      Performs e m p s (.ok
        (.written (UInt64.ofNat puts.length) (UInt64.ofNat (Put.totalSize puts)))
        { s with connection := s.connection.flush { s.handle with pending := puts } })
  | unbuilt {err : ConnectorError} : p.operation = .put → p.batch.mapM Row.toPut = .error err →
      Performs e m p s (.error err s)
  | emptyKey {puts : List Put} : p.operation = .put → p.batch.mapM Row.toPut = .ok puts →
      (∃ q ∈ puts, q.row = []) →
      Performs e m p s (.error (.store (.request "row key must not be empty")) s)
  | deleted {keys : List Bytes} : p.operation = .delete → p.batch.mapM Row.key = .ok keys →
      keys ≠ [] →
      Performs e m p s (.ok (.deleted (UInt64.ofNat keys.length))
        { s with connection := s.connection.delete s.handle keys })
  | unkeyed {err : ConnectorError} : p.operation = .delete → p.batch.mapM Row.key = .error err →
      Performs e m p s (.error err s)
  | idle : p.operation = .put ∨ p.operation = .delete → p.batch = [] →
      Performs e m p s (.ok .idle s)
  | fetched {rows : RowBatch} : p.operation = .get →
      p.batch.mapM (Row.found s.connection s.handle) = .ok rows →
      Performs e m p s (.ok (.fetched rows) s)
  | unfetched {err : ConnectorError} : p.operation = .get →
      p.batch.mapM (Row.found s.connection s.handle) = .error err →
      Performs e m p s (.error err s)
  | scanned {rows : RowBatch} : p.operation = .scan →
      p.batch.scanned s.connection s.handle e.filters m = .ok rows →
      Performs e m p s (.ok (.scanned rows) s)
  | unscanned {err : ConnectorError} : p.operation = .scan →
      p.batch.scanned s.connection s.handle e.filters m = .error err →
      Performs e m p s (.error err s)

section Plans

variable {e : Endpoint} {m : Message} {p : Plan} {s : Session Store}

/-- Each of the listed cases is what the plan comes to. -/
theorem perform_eq_of_performs {result : EStateM.Result ConnectorError (Session Store) Outcome}
    (hpending : s.handle.pending = []) (h : Performs e m p s result) :
    perform e m p s = result := by
  have hcleared : s.handle.cleared = s.handle := by
    rw [Handle.cleared, ← hpending]
  unfold perform
  cases h with
  | @written puts hop hputs hne hkeys =>
    have hfull : puts.isEmpty = false := by simpa using hne
    have hkeyed : (puts.any fun q => q.row.isEmpty) = false := by simpa using hkeys
    simp only [hop, put_eq, hputs, hfull, hkeyed, hcleared, hpending, List.nil_append]
    rfl
  | unbuilt hop hputs => simp only [hop, put_eq, hputs]
  | @emptyKey puts hop hputs hkey =>
    obtain ⟨q, hq, hrow⟩ := hkey
    have hfull : puts.isEmpty = false := by simpa using List.ne_nil_of_mem hq
    have hempty : (puts.any fun q => q.row.isEmpty) = true :=
      List.any_eq_true.2 ⟨q, hq, by rw [hrow]; rfl⟩
    simp only [hop, put_eq, hputs, hfull, hempty, hcleared]
    rfl
  | @deleted keys hop hkeys hne =>
    have hfull : keys.isEmpty = false := by simpa using hne
    simp only [hop, delete_eq, hkeys, hfull]
    rfl
  | unkeyed hop hkeys => simp only [hop, delete_eq, hkeys]
  | idle hop hbatch =>
    rcases hop with hop | hop
    · simp only [hop, put_eq, hbatch]
      rfl
    · simp only [hop, delete_eq, hbatch]
      rfl
  | fetched hop hrows =>
    have hget := get_comesTo s p.batch
    rw [hrows] at hget
    simp only [hop]
    exact hget
  | unfetched hop hrows =>
    have hget := get_comesTo s p.batch
    rw [hrows] at hget
    simp only [hop]
    exact hget
  | scanned hop hrows =>
    have hscan := scan_comesTo s e.filters m p.batch
    rw [hrows] at hscan
    simp only [hop]
    exact hscan
  | unscanned hop hrows =>
    have hscan := scan_comesTo s e.filters m p.batch
    rw [hrows] at hscan
    simp only [hop]
    exact hscan

/-- A plan comes to one of the listed cases. -/
theorem perform_performs (e : Endpoint) (m : Message) (p : Plan)
    (hpending : s.handle.pending = []) : Performs e m p s (perform e m p s) := by
  have hsome : ∃ result, Performs e m p s result := by
    cases hop : p.operation with
    | put =>
      cases hputs : p.batch.mapM Row.toPut with
      | error err => exact ⟨_, .unbuilt hop hputs⟩
      | ok puts =>
        by_cases hnil : puts = []
        · rw [hnil, mapM_eq_ok_iff, List.forall₂_nil_right_iff] at hputs
          exact ⟨_, .idle (.inl hop) hputs⟩
        · by_cases hkey : ∃ q ∈ puts, q.row = []
          · exact ⟨_, .emptyKey hop hputs hkey⟩
          · exact ⟨_, .written hop hputs hnil fun q hq hrow => hkey ⟨q, hq, hrow⟩⟩
    | get =>
      cases hrows : p.batch.mapM (Row.found s.connection s.handle) with
      | error err => exact ⟨_, .unfetched hop hrows⟩
      | ok rows => exact ⟨_, .fetched hop hrows⟩
    | delete =>
      cases hkeys : p.batch.mapM Row.key with
      | error err => exact ⟨_, .unkeyed hop hkeys⟩
      | ok keys =>
        by_cases hnil : keys = []
        · rw [hnil, mapM_eq_ok_iff, List.forall₂_nil_right_iff] at hkeys
          exact ⟨_, .idle (.inr hop) hkeys⟩
        · exact ⟨_, .deleted hop hkeys hnil⟩
    | scan =>
      cases hrows : p.batch.scanned s.connection s.handle e.filters m with
      | error err => exact ⟨_, .unscanned hop hrows⟩
      | ok rows => exact ⟨_, .scanned hop hrows⟩
  obtain ⟨result, h⟩ := hsome
  rw [perform_eq_of_performs hpending h]
  exact h

/-- Whatever fails, the session is as it was. -/
theorem Performs.session_of_error {err : ConnectorError} {s' : Session Store}
    (h : Performs e m p s (.error err s')) : s' = s := by
  cases h <;> rfl

/-- What comes to rows leaves the session as it was. -/
theorem Performs.session_of_rows {rows : RowBatch} {outcome : Outcome} {s' : Session Store}
    (h : Performs e m p s (.ok outcome s'))
    (hrows : outcome = .fetched rows ∨ outcome = .scanned rows) : s' = s := by
  cases h with
  | fetched => rfl
  | scanned => rfl
  | _ => rcases hrows with hrows | hrows <;> cases hrows

/-- No plan gives the handle away. -/
theorem Performs.handle_of_ok {outcome : Outcome} {s' : Session Store}
    (h : Performs e m p s (.ok outcome s')) : s'.handle = s.handle := by
  cases h <;> rfl

end Plans

end Work

end ColumnConnector
