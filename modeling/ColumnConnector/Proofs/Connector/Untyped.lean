import ColumnConnector.Proofs.Connector.Results
import ColumnConnector.Proofs.Connector.RoundTrip
import ColumnConnector.Proofs.Mapping.Entries

/-!
# Untyped entries through the store

Entries without types are put, and the same entries without their values are asked for next, at an
endpoint that completes no rows and names no mapping strategy.  Each entry comes back, with the
texts of its identifier and value (`Connector.process_get_untyped`).

The rows of the get are those of the put without the values, and a get does not look at values; so
it finds what the put has written.  Interleaved rows come back one after the other.
-/

namespace ColumnConnector

open Header (numbered)
open HeaderMapping (Entry Carries Groups entries fields group)

/-! ### Plans -/

/-- The endpoint completes no rows and names no mapping strategy. -/
structure Endpoint.Unconfigured (e : Endpoint) : Prop where
  rowModel : e.config.rowModel = {}
  strategyName : e.config.strategyName = none
  strategyClass : e.config.strategyClass = none

/-- The message asks for an operation on these entries and names no mapping strategy. -/
structure Endpoint.CallsFor (e : Endpoint) (m : Message) (op : Operation) (es : List Entry) :
    Prop where
  operation : Endpoint.operationOf (e.fillHeaders m) = .ok op
  strategy : m.header Header.strategy = none
  strategyClass : m.header Header.strategyClass = none
  entries : Carries m es

namespace Endpoint

variable {e : Endpoint} {m : Message}

/-- A header that the endpoint has no value for. -/
theorem header_fillHeaders {name : String} (h : e.default? name = none) :
    (e.fillHeaders m).header name = m.header name := by
  rw [header_fillHeaders_eq, h, Option.or_none]

/-- The entries of a message are planned in groups. -/
theorem CallsFor.plan_eq {op : Operation} {es : List Entry} (h : e.CallsFor m op es)
    (he : e.Unconfigured) (hs : ∀ entry ∈ es, entry.IsScalar) :
    e.plan (e.fillHeaders m) = .ok ⟨op, HeaderMapping.strategy, group es⟩ := by
  have hchoose : e.registry.choose (e.fillHeaders m) = .ok HeaderMapping.strategy := by
    have hclass : e.default? Header.strategyClass = none := by
      rw [default?_strategyClass, he.strategyClass, Option.map_none]
    have hname : e.default? Header.strategy = none := by
      rw [default?_strategy, he.strategyName, Option.map_none]
    rw [Registry.choose, Message.headerText, Message.headerText, header_fillHeaders hclass,
      header_fillHeaders hname, h.strategyClass, h.strategy]
    rfl
  have hcarries : Carries (e.fillHeaders m) es :=
    h.entries.congr fun name hname i hi => e.get?_fillHeaders_numbered m hname hi
  rw [plan_eq_ok_of_resolve h.operation hchoose (hcarries.resolve_eq hs), he.rowModel,
    List.map_id'' Row.apply_empty]

end Endpoint

/-! ### What is found -/

/-- An untyped cell is read back as its own value. -/
theorem Cell.Reads.value_eq {c : Cell} {w : CellValue} (h : c.Reads w) (hc : c.valueType = none) :
    c.value = some w := by
  cases h with
  | text hv _ => exact hv
  | declared _ ht _ => exact absurd (ht.symm.trans hc) (Option.some_ne_none _)

/-- So it fills the headers of an entry in the same way. -/
theorem Cell.ReadBack.fields_eq {time : Int64} {c d : Cell} (h : c.ReadBack time d)
    (hc : c.valueType = none) (id : Option CellValue) : fields (id, d) = fields (id, c) := by
  obtain ⟨w, hreads, hvalue⟩ := h.value
  simp only [fields, h.family, h.qualifier, hvalue, hreads.value_eq hc]

theorem Row.ReadBack.map_fields {time : Int64} {r found : Row} (h : r.ReadBack time found)
    (hr : ∀ c ∈ r.cells, c.valueType = none) :
    found.cells.map (fun c => fields (found.id, c)) = r.cells.map fun c => fields (r.id, c) := by
  rw [h.id, ← List.forall₂_eq_eq_eq, List.forall₂_map_left_iff, List.forall₂_map_right_iff]
  have hcells := (List.forall₂_and_left _ _).2 ⟨hr, h.cells⟩
  exact hcells.flip.imp fun _ _ hcd => hcd.2.fields_eq hcd.1 r.id

/-- Rows of untyped cells that are read back fill the headers of all their entries in the same
way. -/
theorem map_fields_entries {batch rows : RowBatch}
    (h : List.Forall₂ (fun r found => ∃ time, r.ReadBack time found) batch rows)
    (huntyped : ∀ r ∈ batch, ∀ c ∈ r.cells, c.valueType = none) :
    (entries rows).map fields = (entries batch).map fields := by
  induction h with
  | nil => rfl
  | cons hread _ ih =>
    obtain ⟨time, hread⟩ := hread
    obtain ⟨hr, hrest⟩ := List.forall_mem_cons.1 huntyped
    have hhead := hread.map_fields hr
    simp only [entries, List.flatMap_cons, List.map_append, List.map_map] at ih ⊢
    rw [ih hrest]
    exact congrArg (· ++ _) hhead

/-- What is found of grouped entries are these entries, in the order of the groups. -/
theorem HeaderMapping.Groups.exists_found {batch rows : RowBatch} {es : List Entry}
    (h : Groups batch es) {stamps : List Int64} (hlength : stamps.length = batch.length)
    (hread : List.Forall₂ (fun e found => e.1.ReadBack e.2 found) (batch.zip stamps) rows) :
    ∃ es' : List Entry, es'.Perm es ∧
      (entries rows).map fields = es'.map fun e => fields e.keyed := by
  obtain ⟨es', hentries, hperm⟩ :
      Relation.Comp (fun l es' => l = List.map Entry.keyed es') List.Perm (entries batch) es := by
    rw [List.eq_map_comp_perm]
    exact h.perm
  have hback : List.Forall₂ (fun r found => ∃ time, r.ReadBack time found) batch rows := by
    have hfst : (batch.zip stamps).map Prod.fst = batch :=
      List.map_fst_zip (Nat.le_of_eq hlength.symm)
    rw [← hfst, List.forall₂_map_left_iff]
    exact hread.imp fun e found h => ⟨e.2, h⟩
  have huntyped : ∀ r ∈ batch, ∀ c ∈ r.cells, c.valueType = none := by
    intro r hr c hc
    have hmem : (r.id, c) ∈ entries batch := List.mem_flatMap.2 ⟨r, hr, List.mem_map_of_mem hc⟩
    rw [hentries] at hmem
    obtain ⟨e, -, hkeyed⟩ := List.mem_map.1 hmem
    obtain ⟨-, rfl⟩ := Prod.mk.inj hkeyed
    rfl
  refine ⟨es', hperm, ?_⟩
  rw [map_fields_entries hback huntyped, hentries, List.map_map]
  rfl

namespace Connector

variable {π : Type} [Pooling π]

/-- Storable entries for different places are put by a connector in use that has a handle, and then
the same entries are asked for without their values.  Both exchanges succeed, and the outbound
message carries the entries that were put and no others, in some order and as texts.  All headers of
further entries are those of the message that asked. -/
theorem process_get_untyped {k : Connector Store π} (hk : k.Reachable)
    (he : k.endpoint.Unconfigured) {handle : Handle}
    (hgranted : (Pooling.checkout k.pool k.connection).1 = .granted handle) {es : List Entry}
    (hne : es ≠ []) (hes : ∀ e ∈ es, e.Storable) (hplaces : (es.map Entry.place).Nodup)
    {x y : Exchange} (hx : k.endpoint.CallsFor x.input .put es)
    (hy : k.endpoint.CallsFor y.input .get (es.map Entry.bare)) (hfresh : y.output = none) :
    ∃ (x₁ y₁ : Exchange) (k₁ k₂ : Connector Store π) (out : Message) (es' : List Entry),
      k.process x = (some (.ok ()), x₁, k₁) ∧ k₁.process y = (some (.ok ()), y₁, k₂) ∧
      y₁.output = some out ∧ es'.Perm es ∧ Carries out (es'.map Entry.asText) ∧
      ∀ name ∈ Header.ofEntry, ∀ i, es.length < i →
        out.headers.get? (numbered name i) = y.input.headers.get? (numbered name i) := by
  have hgroups : Groups (group es) es := HeaderMapping.groups_group hplaces
  have htyped : RowBatch.Typed (group es) := hgroups.typed hes
  -- The put.
  have hput := hx.plan_eq he fun e hmem => (hes e hmem).isScalar
  obtain ⟨outcome, pool, hcheckout, -⟩ := Pooling.checkout_checks k.pool k.connection
  rw [hcheckout] at hgranted
  cases hgranted
  have hok := process_put_typed hcheckout hput rfl htyped
  obtain ⟨x₁, k₁, hprocess⟩ : ∃ x₁ k₁, k.process x = (some (.ok ()), x₁, k₁) :=
    ⟨_, _, Prod.ext hok rfl⟩
  -- The get, by the rows of the put without their values.
  obtain ⟨handle', pool', rows, hcheckout', hendpoint, hfound, hread⟩ :=
    hk.sound.found_after_put hput rfl htyped hprocess
  have hget := hy.plan_eq he (List.forall_mem_map.2 fun e hmem => (hes e hmem).isScalar.bare)
  rw [HeaderMapping.group_bare] at hget
  have hfound' : ((group es).map Row.bare).mapM (Row.found k₁.connection handle') = .ok rows := by
    rw [List.mapM_map, ← hfound]
    exact mapM_congr fun r _ => Row.found_bare k₁.connection handle' r
  rw [← hendpoint] at hget
  have hprocess' := process_eq_of_processed
    (.done hcheckout' hget (.fetched rfl hfound')
      (Outcome.refusal?_eq_none (Registry.builtIn_neverRefuses .header) _ _))
  -- What is found are the entries in the order of the groups.
  obtain ⟨es', hperm, hrows⟩ := hgroups.exists_found (Clock.length_stamps _ _) hread
  have hlength : (entries rows).length = es.length := by
    have hsame := congrArg List.length hrows
    rw [List.length_map, List.length_map, hperm.length_eq] at hsame
    exact hsame
  have hnonempty : rows ≠ [] := by
    rintro rfl
    exact hne (List.length_eq_zero_iff.1 hlength.symm)
  let base : Message := ({} : Message).overlayHeaders (k₁.endpoint.fillHeaders y.input).headers
  have hbase : Carries base (es.map Entry.bare) :=
    hy.entries.congr fun name hname i hi => k₁.endpoint.get?_overlay_numbered y.input hname hi
  refine ⟨x₁, _, k₁, _, HeaderMapping.write rows base, es', hprocess, hprocess',
    deliverTo_output (.inl rfl) hnonempty hfresh, hperm, hbase.write ?_ hrows, ?_⟩
  · rw [List.length_map, hperm.length_eq]
  · intro name hname i hi
    rw [HeaderMapping.get?_write hname (by omega), List.getElem?_eq_none (by omega),
      Option.bind_none, Option.none_or]
    exact k₁.endpoint.get?_overlay_numbered y.input hname (by omega)

/-- A row with another between its two entries, and a number and a truth value among the parts. -/
theorem process_get_untyped_interleaved :
    let k : Connector Store :=
      .start { config := { table := "t" } } (Store.createTable (.keeping 3) "t")
    let es : List Entry := [⟨.str "r", "f", "n", some (.int 42)⟩,
      ⟨.int 7, "f", "n", some (.bool true)⟩, ⟨.str "r", "f", "m", some (.str "x")⟩]
    let x : Exchange := { input := { headers := ⟨[
      (numbered Header.family 1, .str "f"), (numbered Header.family 2, .str "f"),
      (numbered Header.family 3, .str "f"), (Header.operation, .str "CamelHBasePut"),
      (numbered Header.qualifier 1, .str "n"), (numbered Header.qualifier 2, .str "n"),
      (numbered Header.qualifier 3, .str "m"), (numbered Header.rowId 1, .str "r"),
      (numbered Header.rowId 2, .int 7), (numbered Header.rowId 3, .str "r"),
      (numbered Header.value 1, .int 42), (numbered Header.value 2, .bool true),
      (numbered Header.value 3, .str "x")], by decide +kernel⟩ } }
    let y : Exchange := { input := { headers := ⟨[
      (numbered Header.family 1, .str "f"), (numbered Header.family 2, .str "f"),
      (numbered Header.family 3, .str "f"), (Header.operation, .str "CamelHBaseGet"),
      (numbered Header.qualifier 1, .str "n"), (numbered Header.qualifier 2, .str "n"),
      (numbered Header.qualifier 3, .str "m"), (numbered Header.rowId 1, .str "r"),
      (numbered Header.rowId 2, .int 7), (numbered Header.rowId 3, .str "r")],
      by decide +kernel⟩ } }
    ∃ (x₁ y₁ : Exchange) (k₁ k₂ : Connector Store) (out : Message) (es' : List Entry),
      k.process x = (some (.ok ()), x₁, k₁) ∧ k₁.process y = (some (.ok ()), y₁, k₂) ∧
      y₁.output = some out ∧ es'.Perm es ∧ Carries out (es'.map Entry.asText) := by
  intro k es x y
  have hes : ∀ e ∈ es, e.Storable := by
    intro e he
    simp only [es, List.mem_cons, List.not_mem_nil, or_false] at he
    rcases he with rfl | rfl | rfl <;>
      exact ⟨⟨rfl, fun j hj => by cases hj; rfl⟩, Option.some_ne_none _, by decide +kernel⟩
  have hnone : ∀ name ∈ [numbered Header.rowType 1, numbered Header.rowType 2,
      numbered Header.rowType 3, numbered Header.valueType 1, numbered Header.valueType 2,
      numbered Header.valueType 3, Header.strategy, Header.strategyClass],
      name ∉ x.input.headers.keys ∧ name ∉ y.input.headers.keys := by decide +kernel
  have hx : k.endpoint.CallsFor x.input .put es := by
    refine ⟨by decide +kernel, Message.header_of_not_mem (hnone _ (by simp)).1,
      Message.header_of_not_mem (hnone _ (by simp)).1, ?_, by decide +kernel⟩
    intro i e he
    rcases i with _ | _ | _ | i <;> cases he <;>
      exact ⟨Message.header_of_mem (by simp [x]) rfl, Message.header_of_mem (by simp [x]) rfl,
        Message.header_of_mem (by simp [x]) rfl, Message.header_of_mem (by simp [x]) rfl,
        Message.header_of_not_mem (hnone _ (by simp)).1,
        Message.header_of_not_mem (hnone _ (by simp)).1⟩
  have hy : k.endpoint.CallsFor y.input .get (es.map Entry.bare) := by
    have hvalue : ∀ i < 3, numbered Header.value (i + 1) ∉ y.input.headers.keys := by
      decide +kernel
    refine ⟨by decide +kernel, Message.header_of_not_mem (hnone _ (by simp)).2,
      Message.header_of_not_mem (hnone _ (by simp)).2, ?_, by decide +kernel⟩
    intro i e he
    rcases i with _ | _ | _ | i <;> cases he <;>
      exact ⟨Message.header_of_mem (by simp [y, Entry.bare]) rfl,
        Message.header_of_mem (by simp [y, Entry.bare]) rfl,
        Message.header_of_mem (by simp [y, Entry.bare]) rfl,
        Message.header_of_not_mem (hvalue _ (by decide)),
        Message.header_of_not_mem (hnone _ (by simp)).2,
        Message.header_of_not_mem (hnone _ (by simp)).2⟩
  obtain ⟨pool, hcheckout⟩ : ∃ pool, Pooling.checkout k.pool k.connection =
      (.granted { table := "t" }, pool, k.connection) :=
    Pooling.granted_of_ofSize _ _ (by decide +kernel)
  obtain ⟨x₁, y₁, k₁, k₂, out, es', hput, hget, hout, hperm, hcarries, -⟩ :=
    process_get_untyped (.start _ (.change (.keeping 3) (.createTable "t"))) ⟨rfl, rfl, rfl⟩
      (congrArg Prod.fst hcheckout) (List.cons_ne_nil _ _) hes
      (by decide +kernel) hx hy rfl
  exact ⟨x₁, y₁, k₁, k₂, out, es', hput, hget, hout, hperm, hcarries⟩

end Connector

end ColumnConnector
