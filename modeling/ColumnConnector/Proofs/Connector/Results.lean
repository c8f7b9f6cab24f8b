import ColumnConnector.Proofs.Connector.Process
import ColumnConnector.Proofs.Mapping.Batches
import ColumnConnector.Proofs.Mapping.Headers

/-!
# Results on the outbound message

The outbound message takes over the inbound headers, and the cells of a result are then written over
them in numbered headers.  An inbound message with more entries than the result has cells keeps the
further ones, so that a reader of the outbound message meets them behind the result
(`Connector.process_writes_results`).
-/

namespace ColumnConnector

open HeaderMapping (entries fields isVisible hasEntry entryNumbers)

/-- The rows that a get or a scan finds in a session. -/
inductive Plan.Finds (p : Plan) (e : Endpoint) (m : Message) (s : Session Store) :
    RowBatch → Prop where
  | get {rows : RowBatch} : p.operation = .get →
      p.batch.mapM (Row.found s.connection s.handle) = .ok rows → Finds p e m s rows
  | scan {rows : RowBatch} : p.operation = .scan →
      p.batch.scanned s.connection s.handle e.filters m = .ok rows → Finds p e m s rows

/-- A get or a scan that goes well comes to the rows that it finds. -/
theorem Work.Performs.finds {e : Endpoint} {m : Message} {p : Plan} {s s' : Session Store}
    {outcome : Outcome} (h : Work.Performs e m p s (.ok outcome s'))
    (hop : p.operation = .get ∨ p.operation = .scan) :
    ∃ rows, (outcome = .fetched rows ∨ outcome = .scanned rows) ∧ p.Finds e m s rows := by
  cases h with
  | @fetched rows hget hrows => exact ⟨rows, .inl rfl, .get hget hrows⟩
  | @scanned rows hscan hrows => exact ⟨rows, .inr rfl, .scan hscan hrows⟩
  | written hput | deleted hput => rcases hop with hop | hop <;> cases hop.symm.trans hput
  | idle hidle =>
    rcases hop with hop | hop <;> rcases hidle with hput | hput <;> cases hop.symm.trans hput

/-- The endpoint leaves the headers of entries as they are. -/
theorem Endpoint.get?_fillHeaders_numbered (e : Endpoint) (m : Message) {name : String}
    (hname : name ∈ Header.ofEntry) {i : Nat} (hi : 1 ≤ i) :
    (e.fillHeaders m).headers.get? (Header.numbered name i) =
      m.headers.get? (Header.numbered name i) := by
  have hnone : e.default? (Header.numbered name i) = none :=
    default?_eq_none (Header.numbered_not_mem_defaulted hname hi)
  rw [get?_fillHeaders, hnone, Option.none_or, ite_self]

/-- An outbound message that takes over the inbound headers has their entries. -/
theorem Endpoint.get?_overlay_numbered (e : Endpoint) (m : Message) {name : String}
    (hname : name ∈ Header.ofEntry) {i : Nat} (hi : 1 ≤ i) :
    (({} : Message).overlayHeaders (e.fillHeaders m).headers).headers.get?
      (Header.numbered name i) = m.headers.get? (Header.numbered name i) := by
  rw [← e.get?_fillHeaders_numbered m hname hi]
  show ((∅ : SortedMap String Json).overlay (e.fillHeaders m).headers).get? _ = _
  rw [SortedMap.get?_overlay, SortedMap.get?_empty, Option.or_none]

theorem Endpoint.hasEntry_overlay (e : Endpoint) (m : Message) {i : Nat} (hi : 1 ≤ i) :
    hasEntry (({} : Message).overlayHeaders (e.fillHeaders m).headers) i = hasEntry m i := by
  apply HeaderMapping.hasEntry_congr
  intro name hname
  exact e.get?_overlay_numbered m hname hi

/-- The plan of a get by numbered headers at an endpoint without a row model. -/
theorem Endpoint.plan_get_of_resolve {e : Endpoint} {m : Message} {batch : RowBatch}
    (hop : operationOf m = .ok .get) (hchoose : e.registry.choose m = .ok HeaderMapping.strategy)
    (hmodel : e.config.rowModel = {})
    (hresolve : (HeaderMapping.resolve m).toOption = some batch) :
    e.plan m = .ok ⟨.get, HeaderMapping.strategy, batch⟩ := by
  rw [plan_eq_ok_of_resolve hop hchoose (eq_ok_of_toOption hresolve), hmodel,
    List.map_id'' Row.apply_empty]

namespace Connector

variable {π : Type} [Pooling π]

/-- The rows of a result are delivered on an outbound message of their own, over the headers of the
inbound message. -/
theorem deliverTo_output {outcome : Outcome} {rows : RowBatch} {x : Exchange}
    (houtcome : outcome = .fetched rows ∨ outcome = .scanned rows) (hrows : rows ≠ [])
    (hfresh : x.output = none) :
    (outcome.deliverTo HeaderMapping.strategy x).output =
      some (HeaderMapping.write rows (({} : Message).overlayHeaders x.input.headers)) := by
  have hout := Outcome.output_deliverTo houtcome hrows .header x
  rw [Exchange.outputOrNew, hfresh] at hout
  exact hout

/-- A get or a scan by numbered headers that succeeds with some cells writes them as the first
entries of the outbound message.  The headers of all further entries are those of the inbound
message; so a reader of the outbound message meets the cells of the result and nothing else exactly
when each of these counts as an entry and the inbound message has no entry of the next number. -/
theorem process_writes_results {k k' : Connector Store π} {x x' : Exchange} {p : Plan}
    (hplan : k.endpoint.plan (k.endpoint.fillHeaders x.input) = .ok p)
    (hop : p.operation = .get ∨ p.operation = .scan) (hstrategy : p.strategy = HeaderMapping.strategy)
    (hfresh : x.output = none) (h : k.process x = (some (.ok ()), x', k')) :
    ∃ handle rows, (Pooling.checkout k.pool k.connection).1 = .granted handle ∧
      p.Finds k.endpoint (k.endpoint.fillHeaders x.input) ⟨k.connection, handle⟩ rows ∧
      (entries rows ≠ [] → ∃ out, x'.output = some out ∧
        (∀ i entry, (entries rows)[i]? = some entry → ∀ f ∈ fields entry,
          out.headers.get? (Header.numbered f.1 (i + 1)) = some f.2) ∧
        (∀ name ∈ Header.ofEntry, ∀ i, (entries rows).length < i →
          out.headers.get? (Header.numbered name i) =
            x.input.headers.get? (Header.numbered name i)) ∧
        (entryNumbers out = List.range' 1 (entries rows).length ↔
          (∀ entry ∈ entries rows, isVisible entry = true) ∧
            hasEntry x.input ((entries rows).length + 1) = false)) := by
  cases processed_of_process_eq h with
  | @done handle pool plan outcome s hcheckout hplan' hperforms =>
    cases Except.ok.inj (hplan.symm.trans hplan')
    obtain ⟨rows, houtcome, hfinds⟩ := hperforms.finds hop
    refine ⟨handle, rows, congrArg Prod.fst hcheckout, hfinds, ?_⟩
    intro hcells
    have hrows : rows ≠ [] := by
      rintro rfl
      exact hcells rfl
    let base : Message := ({} : Message).overlayHeaders (k.endpoint.fillHeaders x.input).headers
    refine ⟨HeaderMapping.write rows base, ?_, ?_, ?_, ?_⟩
    · rw [hstrategy]
      exact deliverTo_output houtcome hrows hfresh
    · intro i entry hentry f hf
      exact HeaderMapping.get?_write_field hentry hf base
    · intro name hname i hi
      rw [HeaderMapping.get?_write hname (by omega), List.getElem?_eq_none (by omega),
        Option.bind_none, Option.none_or]
      exact k.endpoint.get?_overlay_numbered x.input hname (by omega)
    · rw [HeaderMapping.entryNumbers_write_eq_iff, k.endpoint.hasEntry_overlay x.input (by omega)]

/-- A cell that is asked for once is all that is read from the outbound message. -/
theorem process_writes_results_once :
    let k : Connector Store :=
      .start { config := { table := "t" } } (Store.createTable (.keeping 3) "t")
    let x : Exchange := { input := { headers := SortedMap.ofList [
      (Header.operation, .str "CamelHBaseGet"), (Header.rowId, .str "r"),
      (Header.family, .str "f"), (Header.qualifier, .str "q")] } }
    ∃ x' k' out, k.process x = (some (.ok ()), x', k') ∧ x'.output = some out ∧
      entryNumbers out = [1] := by
  intro k x
  let r : Row :=
    { id := some (.utf8 "r"), cells := [{ family := some "f", qualifier := some "q" }] }
  have hresolve : (HeaderMapping.resolve (k.endpoint.fillHeaders x.input)).toOption = some [r] := by
    decide +kernel
  have hplan : k.endpoint.plan (k.endpoint.fillHeaders x.input) =
      .ok ⟨.get, HeaderMapping.strategy, [r]⟩ :=
    Endpoint.plan_get_of_resolve rfl rfl rfl hresolve
  obtain ⟨pool, hcheckout⟩ : ∃ pool, Pooling.checkout k.pool k.connection =
      (.granted { table := "t" }, pool, k.connection) :=
    Pooling.granted_of_ofSize _ _ (by decide +kernel)
  have hfound : [r].mapM (Row.found k.connection { table := "t" }) = .ok [r] := rfl
  have hprocess := process_eq_of_processed (.done hcheckout hplan (.fetched rfl hfound) rfl)
  obtain ⟨handle, rows, hgranted, hfinds, hresults⟩ :=
    process_writes_results hplan (.inl rfl) rfl rfl hprocess
  have hhandle : handle = { table := "t" } := by
    rw [hcheckout] at hgranted
    cases hgranted
    rfl
  have hrows : rows = [r] := by
    rw [hhandle] at hfinds
    cases hfinds with
    | get _ hrows => exact Except.ok.inj (hrows.symm.trans hfound)
    | scan hscan => cases hscan
  rw [hrows] at hresults
  obtain ⟨out, hout, -, -, hread⟩ := hresults (List.cons_ne_nil _ _)
  refine ⟨_, _, out, hprocess, hout, hread.2 ⟨?_, ?_⟩⟩
  · intro entry hentry
    rw [List.mem_singleton.1 hentry]
    rfl
  · decide +kernel

/-- A cell that is asked for twice is found once, and the second request still stands behind it. -/
theorem process_keeps_inbound_entry :
    let k : Connector Store :=
      .start { config := { table := "t" } } (Store.createTable (.keeping 3) "t")
    let x : Exchange := { input := { headers := SortedMap.ofList [
      (Header.operation, .str "CamelHBaseGet"), (Header.rowId, .str "r"),
      (Header.family, .str "f"), (Header.qualifier, .str "q"), ("CamelHBaseRowId2", .str "r"),
      ("CamelHBaseFamily2", .str "f"), ("CamelHBaseQualifier2", .str "q")] } }
    ∃ p handle rows out x' k',
      k.endpoint.plan (k.endpoint.fillHeaders x.input) = .ok p ∧ p.operation = .get ∧
      p.strategy = HeaderMapping.strategy ∧ x.output = none ∧
      k.process x = (some (.ok ()), x', k') ∧
      (Pooling.checkout k.pool k.connection).1 = .granted handle ∧
      p.Finds k.endpoint (k.endpoint.fillHeaders x.input) ⟨k.connection, handle⟩ rows ∧
      (entries rows).length = 1 ∧ x'.output = some out ∧
      hasEntry out 2 = true ∧ entryNumbers out = [1, 2] := by
  intro k x
  let r : Row :=
    { id := some (.utf8 "r"), cells := [{ family := some "f", qualifier := some "q" }] }
  let out : Message :=
    HeaderMapping.write [r] (({} : Message).overlayHeaders (k.endpoint.fillHeaders x.input).headers)
  have hresolve : (HeaderMapping.resolve (k.endpoint.fillHeaders x.input)).toOption = some [r] := by
    decide +kernel
  have hplan : k.endpoint.plan (k.endpoint.fillHeaders x.input) =
      .ok ⟨.get, HeaderMapping.strategy, [r]⟩ :=
    Endpoint.plan_get_of_resolve rfl rfl rfl hresolve
  obtain ⟨pool, hcheckout⟩ : ∃ pool, Pooling.checkout k.pool k.connection =
      (.granted { table := "t" }, pool, k.connection) :=
    Pooling.granted_of_ofSize _ _ (by decide +kernel)
  have hfound : [r].mapM (Row.found k.connection { table := "t" }) = .ok [r] := rfl
  have hprocess := process_eq_of_processed (.done hcheckout hplan (.fetched rfl hfound) rfl)
  have hentry : ∀ i, 1 ≤ i →
      hasEntry out i = ((entries [r])[i - 1]?).elim (hasEntry x.input i) isVisible := by
    intro i hi
    rw [HeaderMapping.hasEntry_write hi, k.endpoint.hasEntry_overlay x.input hi]
  have hfirst : hasEntry out 1 = true := hentry 1 (by decide)
  have hsecond : hasEntry out 2 = true := (hentry 2 (by decide)).trans (by decide +kernel)
  have hthird : hasEntry out 3 = false := (hentry 3 (by decide)).trans (by decide +kernel)
  refine ⟨_, _, [r], out, _, _, hplan, rfl, rfl, rfl, hprocess,
    congrArg Prod.fst hcheckout, .get rfl hfound, rfl, ?_, hsecond, ?_⟩
  · exact deliverTo_output (.inl rfl) (List.cons_ne_nil _ _) rfl
  · show entryNumbers out = List.range' 1 2
    rw [HeaderMapping.entryNumbers_eq_iff]
    refine ⟨?_, hthird⟩
    intro i hi hle
    rcases Nat.lt_or_ge i 2 with hlt | hge
    · rw [show i = 1 from by omega]
      exact hfirst
    · rw [show i = 2 from by omega]
      exact hsecond

end Connector

end ColumnConnector
