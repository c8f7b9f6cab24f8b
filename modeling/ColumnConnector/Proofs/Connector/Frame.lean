import ColumnConnector.Proofs.Connector.Accounting
import ColumnConnector.Proofs.Connector.Results

/-!
# What an exchange keeps

Processing an exchange sets missing headers of its inbound message and, when a get or a scan has
rows, writes the outbound message.  Nothing else changes: the outbound message is made of what it
was, of the inbound headers laid over it and of what the strategy writes over both
(`Connector.process_frame`).
-/

namespace ColumnConnector

open HeaderMapping (entries fields parts)

/-- The outbound message before the results are written: what it was, with the inbound headers laid
over its own. -/
theorem Message.get?_overlayHeaders (m : Message) (headers : SortedMap String Json)
    (name : String) : (m.overlayHeaders headers).headers.get? name =
      (headers.get? name).or (m.headers.get? name) :=
  SortedMap.get?_overlay m.headers headers name

/-- What goes well comes to rows if it is a get or a scan. -/
theorem Invocation.exists_rows_iff {σ π : Type} [Connection σ] [Pooling π] {i : Invocation σ π}
    {p : Plan} {s s' : Session σ} {outcome : Outcome} (hresult : i.result = some (.ok ()))
    (hplan : i.connector.endpoint.plan i.message = .ok p)
    (hperform : Work.perform i.connector.endpoint i.message p s = .ok outcome s') :
    (i.succeeded .get || i.succeeded .scan) = true ↔
      ∃ rows, outcome = .fetched rows ∨ outcome = .scanned rows := by
  rw [(Work.achieves_of_perform hperform).exists_rows_iff]
  simp [succeeded, hresult, plan?_eq hplan]

namespace Connector

variable {σ π : Type} [Connection σ] [Pooling π] {k k' : Connector σ π} {x x' : Exchange}
  {result : Option (Except ConnectorError Unit)}

/-- The inbound message is left alone or has its missing headers filled in. -/
theorem process_input (h : k.process x = (result, x', k')) :
    x'.input = x.input ∨ x'.input = k.endpoint.fillHeaders x.input := by
  have hends := k.ends_process x
  rw [h] at hends
  cases hends with
  | waiting => exact .inl rfl
  | refused => exact .inl rfl
  | unplanned => exact .inr rfl
  | failed => exact .inr rfl
  | unwritten => exact .inr (Outcome.input_deliverTo _ _ _)
  | done => exact .inr (Outcome.input_deliverTo _ _ _)

/-- Without rows the outbound message is left alone. -/
theorem process_output_of_no_rows (h : k.process x = (result, x', k')) {i : Invocation σ π}
    (hi : i = ⟨k, x⟩)
    (hnone : (i.succeeded .get || i.succeeded .scan) = false ∧ i.NeverRefuses ∨
      i.returned = []) : x'.output = x.output := by
  subst hi
  have hends := k.ends_process x
  have hresult : (⟨k, x⟩ : Invocation σ π).result = (k.process x).1 := rfl
  rw [h] at hends hresult
  cases hends with
  | @unwritten handle pool connection plan outcome err s hcheckout hplan hperform hrefusal =>
    have hsession := Invocation.session?_eq (i := ⟨k, x⟩) hcheckout
    rw [Outcome.deliverTo_eq_self fun rows hrows => ?_]
    · rfl
    · have hreturned := Invocation.returned_eq hsession hplan hperform rows hrows
      rcases hnone with ⟨-, hwrites⟩ | hnil
      · rw [Outcome.refusal?_eq_none (hwrites _ (Invocation.plan?_eq hplan))] at hrefusal
        cases hrefusal
      · rw [← hreturned, hnil]
  | @done handle pool connection plan outcome s hcheckout hplan hperform =>
    have hsession := Invocation.session?_eq (i := ⟨k, x⟩) hcheckout
    rw [Outcome.deliverTo_eq_self fun rows hrows => ?_]
    · rfl
    · have hsome := (Invocation.exists_rows_iff hresult hplan hperform).2 ⟨rows, hrows⟩
      have hreturned := Invocation.returned_eq hsession hplan hperform rows hrows
      rcases hnone with ⟨hfalse, -⟩ | hnil
      · rw [hsome] at hfalse
        cases hfalse
      · rw [← hreturned, hnil]
  | _ => rfl

/-- With rows the strategy writes them over the inbound headers. -/
theorem process_output_of_rows (h : k.process x = (result, x', k')) {i : Invocation σ π}
    (hi : i = ⟨k, x⟩) (hsome : (i.succeeded .get || i.succeeded .scan) = true)
    (hrows : i.returned ≠ []) {strategy : StrategyName}
    (hstrategy : i.plan?.map (·.strategy) = some (Registry.builtIn strategy)) :
    x'.output = some ((Registry.builtIn strategy).writeGet i.returned
      (x.outputOrNew.overlayHeaders x'.input.headers)) := by
  subst hi
  have hends := k.ends_process x
  have hresult : (⟨k, x⟩ : Invocation σ π).result = (k.process x).1 := rfl
  rw [h] at hends hresult
  cases hends with
  | @done handle pool connection plan outcome s hcheckout hplan hperform =>
    have hsession := Invocation.session?_eq (i := ⟨k, x⟩) hcheckout
    obtain ⟨rows, houtcome⟩ := (Invocation.exists_rows_iff hresult hplan hperform).1 hsome
    have hreturned := Invocation.returned_eq hsession hplan hperform rows houtcome
    have hbuiltIn : plan.strategy = Registry.builtIn strategy := by
      rw [Invocation.plan?_eq (i := ⟨k, x⟩) hplan] at hstrategy
      exact Option.some.inj hstrategy
    rw [hreturned] at hrows ⊢
    rw [hbuiltIn, Outcome.output_deliverTo houtcome hrows, Outcome.input_deliverTo]
    rfl
  | _ => simp [Invocation.succeeded, hresult] at hsome

/-- Processing an exchange changes only what it is for.  Of the inbound message missing headers are
set to their defaults.  The outbound message stays as it was unless there are rows; then it takes
over the inbound headers, and the strategy either replaces the body or sets the headers of as many
entries as there are cells.  A strategy that refuses rows may have written the outbound message
before. -/
theorem process_frame (h : k.process x = (result, x', k')) :
    let i : Invocation σ π := ⟨k, x⟩
    -- the inbound message
    (x'.input.body = x.input.body ∧ ∀ name,
      x'.input.headers.get? name = x.input.headers.get? name ∨
        name ∈ Header.defaulted ∧ x.input.hasHeader name = false ∧
          ∃ j, k.endpoint.default? name = some j ∧ x'.input.headers.get? name = some j) ∧
    -- the outbound message without rows
    ((i.succeeded .get || i.succeeded .scan) = false ∧ i.NeverRefuses ∨ i.returned = [] →
      x'.output = x.output) ∧
    -- the outbound message with rows
    ((i.succeeded .get || i.succeeded .scan) = true → i.returned ≠ [] →
      ∀ strategy, i.plan?.map (·.strategy) = some (Registry.builtIn strategy) →
      ∃ out, x'.output = some out ∧
        match strategy with
        | .body => out.body = some (RowBatch.toJson i.returned) ∧ ∀ name,
            out.headers.get? name =
              (x'.input.headers.get? name).or (x.outputOrNew.headers.get? name)
        | .header => out.body = x.outputOrNew.body ∧
            (∀ index entry, (entries i.returned)[index]? = some entry → ∀ f ∈ fields entry,
              out.headers.get? (Header.numbered f.1 (index + 1)) = some f.2) ∧
            ∀ name, (∀ part ∈ parts, ∀ index, 1 ≤ index → index ≤ (entries i.returned).length →
                name ≠ Header.numbered part index) →
              out.headers.get? name =
                (x'.input.headers.get? name).or (x.outputOrNew.headers.get? name)) := by
  intro i
  refine ⟨?_, process_output_of_no_rows h rfl, ?_⟩
  · rcases process_input h with hsame | hfilled
    · rw [hsame]
      exact ⟨rfl, fun name => .inl rfl⟩
    · rw [hfilled]
      exact ⟨k.endpoint.body_fillHeaders x.input, k.endpoint.fillHeaders_frame x.input⟩
  · intro hsome hrows strategy hstrategy
    have hbase := x.outputOrNew.get?_overlayHeaders x'.input.headers
    refine ⟨_, process_output_of_rows h rfl hsome hrows hstrategy, ?_⟩
    cases strategy with
    | body => exact ⟨rfl, hbase⟩
    | header =>
      refine ⟨HeaderMapping.body_write _ _, ?_, ?_⟩
      · intro index entry hentry f hf
        exact HeaderMapping.get?_write_field hentry hf _
      · intro name hname
        exact (HeaderMapping.get?_write_of_ne hname _).trans (hbase name)

/-- A get adds its cell to an outbound message that has a body and a header of its own. -/
theorem process_frame_kept_body :
    let k : Connector Store :=
      .start { config := { table := "t" } } (Store.createTable (.keeping 3) "t")
    let x : Exchange := {
      input := { headers := SortedMap.ofList [
        (Header.operation, .str "CamelHBaseGet"), (Header.rowId, .str "r"),
        (Header.family, .str "f"), (Header.qualifier, .str "q")] }
      output := some { headers := SortedMap.ofList [("a", .bool true)], body := some (.str "b") } }
    ∃ x' k' out, k.process x = (some (.ok ()), x', k') ∧ x'.output = some out ∧
      out.body = some (.str "b") ∧ out.headers.get? "a" = some (.bool true) ∧
      out.headers.get? Header.value = some .null := by
  intro k x
  let r : Row :=
    { id := some (.utf8 "r"), cells := [{ family := some "f", qualifier := some "q" }] }
  let i : Invocation Store Pool := ⟨k, x⟩
  have hresolve : (HeaderMapping.resolve (k.endpoint.fillHeaders x.input)).toOption = some [r] := by
    decide +kernel
  have hplan : i.connector.endpoint.plan i.message = .ok ⟨.get, HeaderMapping.strategy, [r]⟩ :=
    Endpoint.plan_get_of_resolve rfl rfl rfl hresolve
  obtain ⟨pool, hcheckout⟩ : ∃ pool, Pooling.checkout k.pool k.connection =
      (.granted { table := "t" }, pool, k.connection) :=
    Pooling.granted_of_ofSize _ _ (by decide +kernel)
  have hperforms := Work.Performs.fetched (e := k.endpoint) (m := i.message)
    (p := ⟨.get, HeaderMapping.strategy, [r]⟩) (s := ⟨k.connection, { table := "t" }⟩) rfl
    (show [r].mapM (Row.found k.connection { table := "t" }) = .ok [r] from rfl)
  have hprocess := process_eq_of_processed (.done hcheckout hplan hperforms rfl)
  have hperform := Work.perform_eq_of_performs (pending_of_granted hcheckout) hperforms
  have hsession := i.session?_eq hcheckout
  have hreturned : i.returned = [r] := i.returned_eq hsession hplan hperform [r] (.inl rfl)
  have hsome := (i.exists_rows_iff (congrArg Prod.fst hprocess) hplan hperform).2 ⟨[r], .inl rfl⟩
  have hstrategy : i.plan?.map (·.strategy) = some (Registry.builtIn .header) := by
    rw [i.plan?_eq hplan]
    rfl
  obtain ⟨-, -, hrows⟩ := process_frame hprocess
  obtain ⟨out, hout, hbody, hfields, hothers⟩ :=
    hrows hsome (by rw [hreturned]; exact List.cons_ne_nil _ _) .header hstrategy
  rw [hreturned] at hfields hothers
  refine ⟨_, _, out, hprocess, hout, hbody, ?_, ?_⟩
  · refine (hothers "a" fun part hpart index hfirst hlast => ?_).trans rfl
    have hone : index = 1 := Nat.le_antisymm hlast hfirst
    rw [hone]
    revert part
    decide
  · exact hfields 0 _ rfl (Header.value, .null) (by simp [fields, HeaderMapping.valueJson])

end Connector

end ColumnConnector
