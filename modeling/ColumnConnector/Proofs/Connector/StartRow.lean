import ColumnConnector.Proofs.Connector.Untyped
import ColumnConnector.Proofs.Invocation.Keys
import ColumnConnector.Proofs.Mapping.FirstGap
import ColumnConnector.Proofs.Row.Columns
import ColumnConnector.Proofs.Value.Leads

/-!
# Where a scan starts

An entry is put, and a scan with the same column and type headers is to start at it, with the header
of the identifier as the header of the start row.  The row is stored under the form that the
identifier has as a value of the declared type; the scan starts at the bytes of the header's text.
So it comes to the row exactly if these bytes are not behind the key
(`Connector.process_scan_from_put`), which holds of texts, and for the other types depends on the
value.
-/

namespace ColumnConnector

open Header (numbered)
open HeaderMapping (entryNumbers entryRow declaredType valueOf)

/-! ### Versions after a put -/

namespace View

theorem foldl_prepend_ne_nil {limit : Nat} (hlimit : 1 ≤ limit) (time : Int64) (key : Bytes)
    {v : View} {cells : List (Column × Bytes)} {key' : Bytes} {column : Column}
    (h : v key' column ≠ [] ∨ key' = key ∧ column ∈ cells.map Prod.fst) :
    cells.foldl (prepend limit time key) v key' column ≠ [] := by
  induction cells generalizing v with
  | nil => simpa using h
  | cons cell rest ih =>
    rw [List.foldl_cons]
    apply ih
    by_cases hhere : key' = key ∧ column = cell.1
    · left
      rw [prepend, if_pos hhere, ne_eq, List.take_eq_nil_iff]
      simp only [List.cons_ne_nil, or_false]
      omega
    · rw [prepend, if_neg hhere]
      rcases h with hold | ⟨hkey, hcolumn⟩
      · exact .inl hold
      · rcases List.mem_cons.1 hcolumn with hfirst | hrest
        · exact absurd ⟨hkey, hfirst⟩ hhere
        · exact .inr ⟨hkey, hrest⟩

theorem putAll_ne_nil {limit : Nat} (hlimit : 1 ≤ limit) {v : View} {stamped : List (Put × Int64)}
    {key : Bytes} {column : Column}
    (h : v key column ≠ [] ∨ ∃ e ∈ stamped, key = e.1.row ∧ column ∈ e.1.cells.map Prod.fst) :
    putAll limit v stamped key column ≠ [] := by
  induction stamped generalizing v with
  | nil => simpa [putAll] using h
  | cons first rest ih =>
    apply ih (v := put limit v first)
    rcases h with hold | ⟨e, he, hkey, hcolumn⟩
    · exact .inl (foldl_prepend_ne_nil hlimit _ _ (.inl hold))
    · rcases List.mem_cons.1 he with rfl | hmem
      · exact .inl (foldl_prepend_ne_nil hlimit _ _ (.inr ⟨hkey, hcolumn⟩))
      · exact .inr ⟨e, hmem, hkey, hcolumn⟩

end View

/-- A column that was put has versions. -/
theorem Store.Gains.versions_ne_nil {s s' : Store} {table : String} {puts : List Put}
    (h : s.Gains table puts s') (hlimit : 1 ≤ s.maxVersions) {p : Put} (hp : p ∈ puts)
    {column : Column} (hcolumn : column ∈ p.cells.map Prod.fst) :
    s'.versions table p.row column ≠ [] := by
  have hfst : (puts.zip (s.clock.stamps puts.length)).map Prod.fst = puts :=
    List.map_fst_zip (Nat.le_of_eq (Clock.length_stamps s.clock puts.length).symm)
  rw [← hfst] at hp
  obtain ⟨e, he, rfl⟩ := List.mem_map.1 hp
  rw [h.versions]
  exact View.putAll_ne_nil hlimit (.inr ⟨e, he, rfl, hcolumn⟩)

/-! ### Messages of one entry -/

namespace HeaderMapping

/-- Of a message with one entry this is the only row. -/
theorem resolve_eq_ok_iff_of_single {m : Message} {batch : RowBatch} (hsingle : entryNumbers m = [1]) :
    resolve m = .ok batch ↔ ∃ entry, entryRow m 1 = .ok entry ∧ batch = [entry] := by
  rw [resolve_eq_addAll, hsingle, List.mapM_cons, List.mapM_nil]
  cases hentry : entryRow m 1 with
  | error e =>
    constructor
    · intro h
      cases h
    · rintro ⟨_, h, -⟩
      cases h
  | ok entry =>
    constructor
    · intro h
      cases h
      exact ⟨entry, rfl, rfl⟩
    · rintro ⟨_, h, rfl⟩
      cases h
      rfl

theorem declaredType_of_entryRow {m : Message} {i : Nat} {entry : Row}
    (h : entryRow m i = .ok entry) :
    declaredType m (numbered Header.rowType i) = .ok entry.rowType := by
  obtain ⟨rowType, hrowType, h⟩ := bind_eq_ok_iff.1 h
  obtain ⟨id, -, h⟩ := bind_eq_ok_iff.1 h
  obtain ⟨cells, -, h⟩ := bind_eq_ok_iff.1 h
  cases h
  exact hrowType

end HeaderMapping

/-- What an endpoint fills in is not part of an entry. -/
theorem Endpoint.resolve_fillHeaders (e : Endpoint) (m : Message) :
    HeaderMapping.resolve (e.fillHeaders m) = HeaderMapping.resolve m := by
  have hheader : ∀ i, ∀ name ∈ Header.ofEntry,
      (e.fillHeaders m).headers.get? (numbered name i) = m.headers.get? (numbered name i) := by
    intro i name hname
    cases i with
    | zero =>
      -- Under the number zero the first entry stands once more.
      have hfirst := e.get?_fillHeaders_numbered m hname (Nat.le_refl 1)
      exact hfirst
    | succ i => exact e.get?_fillHeaders_numbered m hname (Nat.le_add_left 1 i)
  have hnumbers : entryNumbers (e.fillHeaders m) = entryNumbers m := by
    obtain ⟨k, hk, hentries, hgap⟩ := HeaderMapping.exists_entryNumbers m
    rw [hk, HeaderMapping.entryNumbers_eq_iff]
    refine ⟨fun i hi hle => ?_, ?_⟩
    · rw [HeaderMapping.hasEntry_congr (hheader i)]
      exact hentries i hi hle
    · rw [HeaderMapping.hasEntry_congr (hheader (k + 1))]
      exact hgap
  have hrows : entryRow (e.fillHeaders m) = entryRow m := by
    funext i
    apply HeaderMapping.entryRow_congr
    intro name hname
    rw [Message.header, hheader i name hname]
    rfl
  rw [HeaderMapping.resolve, HeaderMapping.resolve, hnumbers, hrows]

/-- The columns of a completed row are its own and those of the model. -/
theorem Row.map_address_apply (r model : Row) :
    (r.apply model).cells.map Cell.address =
      (model.cells.map Cell.address).foldl appendNew (r.cells.map Cell.address) := by
  show (model.cells.foldl (fun cells m => mergeCell m cells) r.cells).map Cell.address = _
  generalize r.cells = cells
  induction model.cells generalizing cells with
  | nil => rfl
  | cons m rest ih => rw [List.foldl_cons, ih, map_address_mergeCell, List.map_cons, List.foldl_cons]

/-- The plan is for the one entry that the headers of the message carry. -/
structure Plan.OfEntry (p : Plan) (e : Endpoint) (m : Message) : Prop where
  plan : e.plan (e.fillHeaders m) = .ok p
  strategy : p.strategy = HeaderMapping.strategy
  single : entryNumbers m = [1]

namespace Plan.OfEntry

variable {p : Plan} {e : Endpoint} {m : Message}

theorem exists_entry (h : p.OfEntry e m) :
    ∃ entry, entryRow m 1 = .ok entry ∧ p.batch = [entry.apply e.config.rowModel] := by
  obtain ⟨op, -, hplan⟩ := bind_eq_ok_iff.1 h.plan
  obtain ⟨s, -, hplan⟩ := bind_eq_ok_iff.1 hplan
  obtain ⟨batch, hbatch, hplan⟩ := bind_eq_ok_iff.1 hplan
  have hstrategy := h.strategy
  cases hplan
  obtain rfl : s = HeaderMapping.strategy := hstrategy
  obtain ⟨given, hresolve, rfl⟩ := Endpoint.batchOf_eq_ok_iff.1 hbatch
  rw [show HeaderMapping.strategy.resolve _ = _ from e.resolve_fillHeaders m] at hresolve
  obtain ⟨entry, hentry, rfl⟩ := (HeaderMapping.resolve_eq_ok_iff_of_single h.single).1 hresolve
  exact ⟨entry, hentry, rfl⟩

theorem of_entryRow {op : Operation} {entry : Row} (hmodel : e.config.rowModel = {})
    (hop : Endpoint.operationOf (e.fillHeaders m) = .ok op)
    (hchoose : e.registry.choose (e.fillHeaders m) = .ok HeaderMapping.strategy)
    (hsingle : entryNumbers m = [1]) (hentry : entryRow m 1 = .ok entry) :
    Plan.OfEntry ⟨op, HeaderMapping.strategy, [entry]⟩ e m := by
  have hresolve := (HeaderMapping.resolve_eq_ok_iff_of_single hsingle).2 ⟨entry, hentry, rfl⟩
  have hplan := Endpoint.plan_eq_ok_of_resolve hop hchoose
    ((e.resolve_fillHeaders m).trans hresolve)
  rw [hmodel, List.map_singleton, Row.apply_empty] at hplan
  exact ⟨hplan, rfl, hsingle⟩

end Plan.OfEntry

/-- A template with the columns of a row covers one of those that the row writes to. -/
theorem Row.Writes.exists_covered {r template : Row} {p : Put} (h : r.Writes p)
    (haddress : template.cells.map Cell.address = r.cells.map Cell.address) :
    ∃ column ∈ p.cells.map Prod.fst, template.Covers column := by
  by_cases hnamed : ∃ c ∈ template.cells, ∃ column, c.Names column
  · obtain ⟨c, hc, column, hnames⟩ := hnamed
    have hmem : c.address ∈ r.cells.map Cell.address := by
      rw [← haddress]
      exact List.mem_map_of_mem hc
    obtain ⟨d, hd, hsame⟩ := List.mem_map.1 hmem
    obtain ⟨written, hwritten, hwrites⟩ := exists_mem_of_forall₂ h.cells hd
    refine ⟨column, List.mem_map.2 ⟨written, hwritten, ?_⟩, .inl ⟨c, hc, hnames⟩⟩
    have hcolumn : c.column = d.column := by
      rw [Cell.address, Cell.address, Prod.mk.injEq] at hsame
      rw [Cell.column, Cell.column, hsame.1, hsame.2]
    rw [hnames.column_eq, Cell.column_eq_ok_iff.2 hwrites.column] at hcolumn
    exact (Except.ok.inj hcolumn).symm
  · -- Without named columns the template covers everything, and the row has some cell.
    obtain ⟨c, rest, hcells⟩ := List.exists_cons_of_ne_nil h.nonempty
    obtain ⟨written, hwritten, -⟩ :=
      exists_mem_of_forall₂ h.cells (hcells ▸ List.mem_cons_self : c ∈ r.cells)
    refine ⟨written.1, List.mem_map_of_mem hwritten, .inr ?_⟩
    intro c hc other hnames
    exact hnamed ⟨c, hc, other, hnames⟩

/-- A scan without a filter qualifies a row of a covered column by its key. -/
theorem Row.mem_qualifying_iff {template : Row} {start : String} {t : Table} {key : Bytes}
    (hheld : ∃ column, template.Covers column ∧ t.versions key column ≠ []) :
    key ∈ (template.qualifying (some start) none t).map Prod.fst ↔
      (compare (Utf8.encode start) key).isLE = true := by
  obtain ⟨column, hcovers, hversions⟩ := hheld
  constructor
  · intro hmem
    obtain ⟨row, hrow, rfl⟩ := List.mem_map.1 hmem
    have hqualifies : template.Qualifies (some start) none row :=
      of_decide_eq_true (List.mem_filter.1 hrow).2
    exact hqualifies.reached start rfl
  · intro hle
    cases hget : SortedMap.get? t key with
    | none =>
      rw [Table.versions, hget] at hversions
      exact absurd rfl hversions
    | some data =>
      rw [Table.versions_of_some hget] at hversions
      have hqualifies : template.Qualifies (some start) none (key, data) := by
        refine ⟨?_, ⟨column, hcovers, hversions⟩, ?_⟩
        · intro s hs
          cases hs
          exact hle
        · intro f hf
          cases hf
      refine List.mem_map.2 ⟨(key, data), List.mem_filter.2 ⟨?_, decide_eq_true hqualifies⟩, rfl⟩
      exact SortedMap.get?_eq_some_iff.1 hget

/-! ### The text of an identifier and its key -/

/-- The identifier of an entry is the value that its header gives. -/
theorem HeaderMapping.exists_header_of_id {m : Message} {entry : Row} {id : CellValue}
    (h : entryRow m 1 = .ok entry) (hid : entry.id = some id) :
    ∃ j, m.header Header.rowId = some j ∧ valueOf entry.rowType j = .ok id := by
  obtain ⟨hvalue, -⟩ := parts_of_entryRow h
  rw [hid, valueAt] at hvalue
  split at hvalue
  · cases hvalue
  · next j hj =>
    obtain ⟨v, hread, hsome⟩ := map_eq_ok_iff.1 hvalue
    cases hsome
    exact ⟨j, hj, hread⟩

/-- What is read from a text is its value of the type that it has. -/
theorem HeaderMapping.parse_of_valueOf {declared : Option ValueType} {j : Json} {v : CellValue}
    (h : valueOf declared j = .ok v) (hv : Json.list? Json.byte? j = none ∨ v.type ≠ .bytes) :
    v.type.parse j.text = .ok v := by
  unfold valueOf at h
  split at h
  · next raw hraw =>
    cases h
    split at hraw
    · rcases hv with hnone | hne
      · cases hnone.symm.trans hraw
      · exact absurd rfl hne
    · cases hraw
  · rw [ValueType.type_of_parse h]
    exact h

/-- The text comes no later than the key for texts, for bytes that are read from it and for `true`;
it comes later for `false` and for a whole number whose first byte is small. -/
theorem HeaderMapping.isLE_text_key {declared : Option ValueType} {j : Json} {id : CellValue}
    (h : valueOf declared j = .ok id) :
    let reached := (compare (Utf8.encode j.text) id.encode).isLE
    (id.type = .utf8 ∨ id.type = .bytes ∧ Json.list? Json.byte? j = none → reached = true) ∧
      (∀ b, id = .bool b → reached = b) ∧
      (∀ n, id = .int32 n → 0 ≤ n.toInt → n.toInt < 9 * 2 ^ 24 → reached = false) ∧
      ∀ n, id = .int64 n → 0 ≤ n.toInt → n.toInt < 9 * 2 ^ 56 → reached = false := by
  intro reached
  refine ⟨?_, ?_, ?_, ?_⟩
  · intro htext
    have hparse := parse_of_valueOf h (htext.elim (fun hutf8 => .inr (by rw [hutf8]; decide))
      fun hbytes => .inl hbytes.2)
    have hsame : id.encode = Utf8.encode j.text := by
      rcases htext with htype | ⟨htype, -⟩
      · rw [htype] at hparse
        cases hparse
        rfl
      · rw [htype] at hparse
        cases hparse
        rfl
    show (compare _ id.encode).isLE = true
    rw [hsame, Std.ReflOrd.compare_self]
    rfl
  · rintro b rfl
    have hparse := parse_of_valueOf h (.inr nofun)
    exact ValueType.isLE_bool_of_parse hparse
  · rintro n rfl hn hlt
    have hparse := parse_of_valueOf h (.inr nofun)
    have hgt := ValueType.compare_int32_of_parse hparse hn hlt
    show (compare _ _).isLE = false
    rw [hgt]
    rfl
  · rintro n rfl hn hlt
    have hparse := parse_of_valueOf h (.inr nofun)
    have hgt := ValueType.compare_int64_of_parse hparse hn hlt
    show (compare _ _).isLE = false
    rw [hgt]
    rfl

/-- A text that is listed once under its name is the value of the header. -/
theorem Message.header_ofList {l : List (String × Json)} (h : (l.map Prod.fst).Nodup)
    {name text : String} (hmem : (name, .str text) ∈ l) :
    ({ headers := SortedMap.ofList l } : Message).header name = some (.str text) := by
  rw [header, SortedMap.get?_ofList h, SortedMap.lookup_of_mem h hmem]
  rfl

/-- The message has the column and the type of the other's entry, and starts at its identifier. -/
structure Message.ScansFrom (m' m : Message) : Prop where
  family : m'.header Header.family = m.header Header.family
  qualifier : m'.header Header.qualifier = m.header Header.qualifier
  rowType : m'.header Header.rowType = m.header Header.rowType
  start : m'.header Header.startRow = m.header Header.rowId

/-- The rows read from such messages are of the same columns. -/
theorem Message.ScansFrom.map_address {m m' : Message} (h : m'.ScansFrom m) {entry entry' : Row}
    (hentry : entryRow m 1 = .ok entry) (hentry' : entryRow m' 1 = .ok entry') (model : Row) :
    (entry'.apply model).cells.map Cell.address = (entry.apply model).cells.map Cell.address := by
  have hfamily : m'.headerText (numbered Header.family 1) =
      m.headerText (numbered Header.family 1) := congrArg (Option.map Json.text) h.family
  have hqualifier : m'.headerText (numbered Header.qualifier 1) =
      m.headerText (numbered Header.qualifier 1) := congrArg (Option.map Json.text) h.qualifier
  rw [Row.map_address_apply, Row.map_address_apply, HeaderMapping.map_address_of_entryRow hentry,
    HeaderMapping.map_address_of_entryRow hentry', hfamily, hqualifier]

/-- The start row is not filled in by the endpoint. -/
theorem Endpoint.headerText_startRow (e : Endpoint) (m : Message) :
    (e.fillHeaders m).headerText Header.startRow = (m.header Header.startRow).map Json.text := by
  have hnone : e.default? Header.startRow = none := default?_eq_none (by decide)
  rw [Message.headerText, header_fillHeaders hnone]

/-- With room for all rows an unfiltered scan by one template shows all that qualify. -/
theorem RowBatch.forall₂_of_scanned {template : Row} {s : Store} {h : Handle} {m : Message}
    {bound : Nat} {start : String} {rows : RowBatch} (hbound : Work.scanBound m = .ok bound)
    (hstart : m.headerText Header.startRow = some start) (hroom : s.rowCount h.table ≤ bound)
    (hscanned : RowBatch.scanned s h [] m [template] = .ok rows) :
    List.Forall₂ (fun row found => template.ofScan ⟨row.1, template.newestOf row⟩ = .ok found)
      (template.qualifying (some start) none (s.table h.table)) rows := by
  have hsingle : template.scanned s h [] (some start) bound = .ok rows := by
    rw [scanned, hbound, hstart] at hscanned
    have hfold : [template].foldlM (fun _ r => r.scanned s h [] (some start) bound) [] = .ok rows :=
      hscanned
    rw [List.foldlM_cons] at hfold
    obtain ⟨rows', hrows', hlast⟩ := bind_eq_ok_iff.1 hfold
    cases hlast
    exact hrows'
  have hall : (template.qualifying (some start) none (s.table h.table)).length ≤ bound :=
    Nat.le_trans (List.length_filter_le _ _) hroom
  rw [Row.scanned_of_bound rfl, List.take_of_length_le hall, mapM_eq_ok_iff] at hsingle
  exact hsingle.imp fun _ _ => mapError_eq_ok_iff.1

namespace Connector

variable {π : Type} [Pooling π]

/-- A scan that succeeds at a connector with this endpoint has found rows and delivers them. -/
theorem Sound.scanned_of_process {k k' : Connector Store π} {y y' : Exchange} {q : Plan}
    (hk : k.Sound)
    (hq : k.endpoint.plan (k.endpoint.fillHeaders y.input) = .ok q) (hscan : q.operation = .scan)
    (hstrategy : q.strategy = HeaderMapping.strategy) (hy : k.process y = (some (.ok ()), y', k')) :
    ∃ handle rows, handle.table = k.endpoint.config.table ∧
      q.batch.scanned k.connection handle k.endpoint.filters (k.endpoint.fillHeaders y.input) =
        .ok rows ∧
      y'.output = if rows = [] then y.output else
        some (HeaderMapping.write rows
          (y.outputOrNew.overlayHeaders (k.endpoint.fillHeaders y.input).headers)) := by
  cases processed_of_process_eq hy with
  | @done handle pool plan outcome s hcheckout hplan hperforms =>
    cases Except.ok.inj (hplan.symm.trans hq)
    obtain ⟨rows, houtcome, hfinds⟩ := hperforms.finds (.inr hscan)
    have hchecks := Pooling.checks_of_checkout_eq hcheckout
    refine ⟨handle, rows, hk.pool.table_of_granted hchecks, ?_, ?_⟩
    · cases hfinds with
      | get hget => cases hget.symm.trans hscan
      | scan _ hrows => exact hrows
    · by_cases hrows : rows = []
      · rw [if_pos hrows]
        subst hrows
        rcases houtcome with rfl | rfl <;> rfl
      · rw [if_neg hrows, hstrategy]
        exact Outcome.output_deliverTo houtcome hrows .header _

/-- The rows that a scan by one template, without filters and with room for all rows, delivers are
those that qualify from its start on. -/
theorem Sound.shown_of_process {k k' : Connector Store π} {e : Endpoint} {y y' : Exchange}
    {q : Plan} {template : Row} {bound : Nat} {j : Json} (hk : k.Sound) (he : k.endpoint = e)
    (hfilters : e.filters = []) (hq : e.plan (e.fillHeaders y.input) = .ok q)
    (hscan : q.operation = .scan) (hstrategy : q.strategy = HeaderMapping.strategy)
    (hbatch : q.batch = [template]) (hstart : y.input.header Header.startRow = some j)
    (hbound : Work.scanBound (e.fillHeaders y.input) = .ok bound)
    (hroom : k.connection.rowCount e.config.table ≤ bound)
    (hy : k.process y = (some (.ok ()), y', k')) :
    ∃ rows, List.Forall₂ (fun row found => template.ofScan ⟨row.1, template.newestOf row⟩ = .ok found)
        (template.qualifying (some j.text) none (k.connection.table e.config.table)) rows ∧
      y'.output = if rows = [] then y.output else
        some (HeaderMapping.write rows
          (y.outputOrNew.overlayHeaders (e.fillHeaders y.input).headers)) := by
  subst he
  obtain ⟨handle, rows, htable, hscanned, houtput⟩ := hk.scanned_of_process hq hscan hstrategy hy
  rw [hbatch, hfilters] at hscanned
  have htext : (k.endpoint.fillHeaders y.input).headerText Header.startRow = some j.text := by
    rw [Endpoint.headerText_startRow, hstart, Option.map_some]
  have hshown := RowBatch.forall₂_of_scanned hbound htext (htable ▸ hroom) hscanned
  rw [htable] at hshown
  exact ⟨rows, hshown, houtput⟩

/-- A scan without filters is processed after another exchange if no row from its start on is
unreadable. -/
theorem Sound.exists_process_scan {k k₁ : Connector Store π} {x x₁ y : Exchange} {q : Plan}
    {template : Row} {bound : Nat} {j : Json} (hk : k.Sound) (hfilters : k.endpoint.filters = [])
    (hx : k.process x = (some (.ok ()), x₁, k₁))
    (hq : k.endpoint.plan (k.endpoint.fillHeaders y.input) = .ok q)
    (hwrites : q.strategy.NeverRefuses) (hscan : q.operation = .scan)
    (hbatch : q.batch = [template]) (hstart : y.input.header Header.startRow = some j)
    (hbound : Work.scanBound (k.endpoint.fillHeaders y.input) = .ok bound)
    (hreadable : ∀ row ∈ template.qualifying (some j.text) none
      (k₁.connection.table k.endpoint.config.table), ¬ template.Unreadable row) :
    ∃ y₁ k₂, k₁.process y = (some (.ok ()), y₁, k₂) := by
  obtain ⟨handle, pool, hcheckout, htable, hendpoint⟩ := hk.granted_after_success hx
  rw [← hendpoint] at hfilters hq hbound
  have hok : (k₁.process y).1 = some (.ok ()) := by
    rw [process_scan_ok_iff hcheckout hq hwrites hscan, RowBatch.exists_scanned_iff hbound, hbatch,
      hfilters, Endpoint.headerText_startRow, hstart, List.forall_mem_singleton,
      Row.exists_scanned_unfiltered_iff]
    intro row hrow
    exact hreadable row (htable ▸ List.mem_of_mem_take hrow)
  exact ⟨_, _, Prod.ext hok rfl⟩

/-- An entry is put at an endpoint without filters, and the scan from its identifier on, with the
same column and type and with room for all rows, is processed next.  The scan returns the stored rows
from the bytes of the identifier's text on.  The entry is stored under the identifier as a value of
the declared type, and its row is among those returned exactly if the key is not before these bytes.

It always is returned for a text, for bytes that are not given as an array, and for `true`; it never
is for `false` and for a whole number whose first byte is small. -/
theorem process_scan_from_put {k k₁ k₂ : Connector Store π} {x x₁ y y₁ : Exchange} {p q : Plan}
    {bound : Nat} (hk : k.Reachable) (hfilters : k.endpoint.filters = [])
    (hp : p.OfEntry k.endpoint x.input) (hput : p.operation = .put)
    (hx : k.process x = (some (.ok ()), x₁, k₁))
    (hq : q.OfEntry k.endpoint y.input) (hscan : q.operation = .scan)
    (hfrom : y.input.ScansFrom x.input)
    (hbound : Work.scanBound (k.endpoint.fillHeaders y.input) = .ok bound)
    (hroom : k₁.connection.rowCount k.endpoint.config.table ≤ bound)
    (hy : k₁.process y = (some (.ok ()), y₁, k₂)) :
    ∃ r template declared j id rows, p.batch = [r] ∧ q.batch = [template] ∧
      declaredType x.input Header.rowType = .ok declared ∧
      x.input.header Header.rowId = some j ∧ valueOf declared j = .ok id ∧ r.HasKey id.encode ∧
      let stored := template.qualifying (some j.text) none
        (k₁.connection.table k.endpoint.config.table)
      let reached := (compare (Utf8.encode j.text) id.encode).isLE
      List.Forall₂ (fun row found => template.ofScan ⟨row.1, template.newestOf row⟩ = .ok found)
        stored rows ∧
      y₁.output = (if rows = [] then y.output else
        some (HeaderMapping.write rows
          (y.outputOrNew.overlayHeaders (k.endpoint.fillHeaders y.input).headers))) ∧
      (id.encode ∈ stored.map Prod.fst ↔ reached = true) ∧
      (id.type = .utf8 ∨ id.type = .bytes ∧ Json.list? Json.byte? j = none → reached = true) ∧
      (∀ b, id = .bool b → reached = b) ∧
      (∀ n, id = .int32 n → 0 ≤ n.toInt → n.toInt < 9 * 2 ^ 24 → reached = false) ∧
      ∀ n, id = .int64 n → 0 ≤ n.toInt → n.toInt < 9 * 2 ^ 56 → reached = false := by
  -- The two rows, the put of the first, and the identifier under which it is stored.
  obtain ⟨entry, hentry, hpbatch⟩ := hp.exists_entry
  obtain ⟨entry', hentry', hqbatch⟩ := hq.exists_entry
  obtain ⟨puts, hwrites, hgains⟩ := hk.sound.gains_of_put hp.plan hput hx
  rw [hpbatch] at hwrites
  obtain ⟨put, rest, hwritten, hnone, rfl⟩ := List.forall₂_cons_left_iff.1 hwrites
  cases List.forall₂_nil_left_iff.1 hnone
  obtain ⟨id, hid, hkey⟩ := hwritten.key
  obtain ⟨j, hj, hread⟩ := HeaderMapping.exists_header_of_id hentry hid
  -- What the scan shows, at a connector with the same endpoint.
  obtain ⟨-, -, -, -, hendpoint⟩ := hk.sound.granted_after_success hx
  have hk₁ : k₁.Sound := hk.sound.processed (processed_of_process_eq hx)
  obtain ⟨rows, hshown, houtput⟩ := hk₁.shown_of_process hendpoint hfilters hq.plan hscan hq.strategy
    hqbatch (hfrom.start.trans hj) hbound hroom hy
  -- The row is stored under the key with a column that the template covers.
  obtain ⟨column, hcolumn, hcovers⟩ :=
    hwritten.exists_covered (hfrom.map_address hentry hentry' k.endpoint.config.rowModel)
  have hversions := hgains.versions_ne_nil hk.sound.store.one_le_maxVersions
    (List.mem_singleton_self put) hcolumn
  rw [hkey] at hversions
  exact ⟨_, _, entry.rowType, j, id, rows, hpbatch, hqbatch,
    HeaderMapping.declaredType_of_entryRow hentry, hj, hread, ⟨id, hid, rfl⟩, hshown, houtput,
    Row.mem_qualifying_iff ⟨column, hcovers, hversions⟩, HeaderMapping.isLE_text_key hread⟩

/-! ### Two runs -/

/-- The headers for the one column `f:q`, with a type for the identifier. -/
def columnHeaders (type : String) : List (String × Json) := [
  (Header.family, .str "f"), (Header.qualifier, .str "q"), (Header.rowType, .str type)]

/-- The headers of a put of the identifier. -/
def putHeaders (type id : String) : List (String × Json) :=
  (Header.rowId, .str id) :: (Header.value, .str "x") :: columnHeaders type

/-- The headers of a scan from the identifier on. -/
def scanHeaders (type id : String) : List (String × Json) :=
  (Header.operation, .str "CamelHBaseScan") :: (Header.startRow, .str id) :: columnHeaders type

theorem nodup_putHeaders (type id : String) : ((putHeaders type id).map Prod.fst).Nodup := by
  show [Header.rowId, Header.value, Header.family, Header.qualifier, Header.rowType].Nodup
  decide +kernel

theorem nodup_scanHeaders (type id : String) : ((scanHeaders type id).map Prod.fst).Nodup := by
  show [Header.operation, Header.startRow, Header.family, Header.qualifier, Header.rowType].Nodup
  decide +kernel

def putMessage (type id : String) : Message := { headers := SortedMap.ofList (putHeaders type id) }

def scanMessage (type id : String) : Message :=
  { headers := SortedMap.ofList (scanHeaders type id) }

theorem header_putMessage {type id name text : String} (h : (name, .str text) ∈ putHeaders type id) :
    (putMessage type id).header name = some (.str text) :=
  Message.header_ofList (nodup_putHeaders type id) h

theorem header_scanMessage {type id name text : String}
    (h : (name, .str text) ∈ scanHeaders type id) :
    (scanMessage type id).header name = some (.str text) :=
  Message.header_ofList (nodup_scanHeaders type id) h

theorem header_startRow (type id : String) :
    (scanMessage type id).header Header.startRow = some (.str id) :=
  header_scanMessage (.tail _ (.head _))

theorem scanMessage_scansFrom (type id : String) :
    (scanMessage type id).ScansFrom (putMessage type id) := by
  have hcolumn : ∀ name text, (name, .str text) ∈ columnHeaders type →
      (scanMessage type id).header name = (putMessage type id).header name := by
    intro name text h
    rw [header_scanMessage (.tail _ (.tail _ h)), header_putMessage (.tail _ (.tail _ h))]
  refine ⟨hcolumn _ "f" (.head _), hcolumn _ "q" (.tail _ (.head _)),
    hcolumn _ type (.tail _ (.tail _ (.head _))), ?_⟩
  rw [header_startRow, header_putMessage (.head _)]

/-- A connector to an empty table, without filters. -/
def toEmptyTable : Connector Store :=
  .start { config := { table := "t" } } (Store.createTable (.keeping 3) "t")

theorem reachable_toEmptyTable : toEmptyTable.Reachable :=
  .start _ (.change (.keeping 3) (.createTable "t"))

/-- The put of one row is written and flushed. -/
theorem exists_process_put {x : Exchange} {r : Row} {p : Put}
    (hp : toEmptyTable.endpoint.plan (toEmptyTable.endpoint.fillHeaders x.input) =
      .ok ⟨.put, HeaderMapping.strategy, [r]⟩) (hput : r.toPut = .ok p) (hkey : p.row ≠ []) :
    ∃ x₁ k₁, toEmptyTable.process x = (some (.ok ()), x₁, k₁) ∧
      k₁.connection = toEmptyTable.connection.flush { table := "t", pending := [p] } := by
  obtain ⟨pool, hcheckout⟩ : ∃ pool, Pooling.checkout toEmptyTable.pool toEmptyTable.connection =
      (.granted { table := "t" }, pool, toEmptyTable.connection) :=
    Pooling.granted_of_ofSize _ _ (by decide +kernel)
  have hputs : [r].mapM Row.toPut = .ok [p] := by
    rw [List.mapM_cons, hput, List.mapM_nil]
    rfl
  exact ⟨_, _, process_eq_of_processed (.done hcheckout hp
    (.written rfl hputs (List.cons_ne_nil _ _) (List.forall_mem_singleton.2 hkey)) rfl), rfl⟩

/-- A row under a truth value is found from the text of the value on. -/
theorem process_scan_from_put_true :
    let x : Exchange := { input := putMessage "bool" "true" }
    let y : Exchange := { input := scanMessage "bool" "true" }
    ∃ x₁ k₁ y₁ k₂, toEmptyTable.process x = (some (.ok ()), x₁, k₁) ∧
      k₁.process y = (some (.ok ()), y₁, k₂) ∧ y₁.output.isSome = true := by
  intro x y
  let r : Row := {
    id := some (.bool true)
    rowType := some .bool
    cells := [{ family := some "f", qualifier := some "q", value := some (.utf8 "x") }] }
  let template : Row := {
    rowType := some .bool
    cells := [{ family := some "f", qualifier := some "q" }] }
  have hp : Plan.OfEntry ⟨.put, HeaderMapping.strategy, [r]⟩ toEmptyTable.endpoint x.input :=
    .of_entryRow rfl (by decide +kernel) rfl (by decide +kernel) (by decide +kernel)
  have hq : Plan.OfEntry ⟨.scan, HeaderMapping.strategy, [template]⟩ toEmptyTable.endpoint y.input :=
    .of_entryRow rfl (by decide +kernel) rfl (by decide +kernel) (by decide +kernel)
  have hbound : Work.scanBound (toEmptyTable.endpoint.fillHeaders y.input) = .ok 100 := by
    decide +kernel
  have hfrom : y.input.ScansFrom x.input := scanMessage_scansFrom "bool" "true"
  obtain ⟨x₁, k₁, hx, hstore⟩ := exists_process_put hp.plan
    (show r.toPut = .ok ⟨[255], [(⟨[102], [113]⟩, [120])]⟩ by decide +kernel) (by decide)
  have hroom : k₁.connection.rowCount "t" ≤ 100 := by
    rw [hstore]
    decide +kernel
  have hstored : template.qualifying (some (Json.str "true").text) none
      (k₁.connection.table toEmptyTable.endpoint.config.table) =
        [([255], SortedMap.insert ∅ ⟨[102], [113]⟩ [(1, [120])])] := by
    rw [hstore]
    decide +kernel
  have hstart : y.input.header Header.startRow = some (.str "true") := header_startRow "bool" "true"
  have hreadable : ∀ row ∈ template.qualifying (some (Json.str "true").text) none
      (k₁.connection.table toEmptyTable.endpoint.config.table), ¬ template.Unreadable row := by
    rw [hstored]
    intro row hrow hunreadable
    cases List.mem_singleton.1 hrow
    cases hunreadable with
    | key he => cases he
    | cell hc hnames hversions he =>
      cases List.mem_singleton.1 hc
      obtain ⟨f, q, hf, hq, -, -, rfl⟩ := hnames
      cases hf
      cases hq
      cases hversions
      cases he
  obtain ⟨y₁, k₂, hy⟩ := reachable_toEmptyTable.sound.exists_process_scan rfl hx hq.plan
    (Registry.builtIn_neverRefuses .header) rfl rfl hstart hbound hreadable
  obtain ⟨-, template', -, j, -, rows, -, htemplate, -, hj, -, -, hshown, houtput, -⟩ :=
    process_scan_from_put reachable_toEmptyTable rfl hp rfl hx hq rfl hfrom hbound hroom hy
  have hid : x.input.header Header.rowId = some (.str "true") := header_putMessage (.head _)
  cases hj.symm.trans hid
  cases htemplate
  have hrows : rows ≠ [] := by
    have hlength := hshown.length_eq
    rw [hstored] at hlength
    exact List.ne_nil_of_length_pos (hlength ▸ Nat.one_pos)
  refine ⟨x₁, k₁, y₁, k₂, hx, hy, ?_⟩
  rw [houtput, if_neg hrows]
  rfl

/-- A row under a whole number is stored under its eight bytes and not found from its text on. -/
theorem process_scan_misses_int64 :
    let x : Exchange := { input := putMessage "int64" "5" }
    let y : Exchange := { input := scanMessage "int64" "5" }
    ∃ p q x₁ k₁ y₁ k₂, toEmptyTable.Reachable ∧ toEmptyTable.endpoint.filters = [] ∧
      Plan.OfEntry p toEmptyTable.endpoint x.input ∧ p.operation = .put ∧
      toEmptyTable.process x = (some (.ok ()), x₁, k₁) ∧
      Plan.OfEntry q toEmptyTable.endpoint y.input ∧ q.operation = .scan ∧
      y.input.ScansFrom x.input ∧
      Work.scanBound (toEmptyTable.endpoint.fillHeaders y.input) = .ok 100 ∧
      k₁.connection.rowCount "t" ≤ 100 ∧ k₁.process y = (some (.ok ()), y₁, k₂) ∧
      SortedMap.keys (k₁.connection.table "t") = [[0, 0, 0, 0, 0, 0, 0, 5]] ∧ y₁.output = none := by
  intro x y
  let c : Cell := { family := some "f", qualifier := some "q" }
  let r : Row := {
    id := some (.int64 5)
    rowType := some .int64
    cells := [{ c with value := some (.utf8 "x") }] }
  let template : Row := { rowType := some .int64, cells := [c] }
  have hp : Plan.OfEntry ⟨.put, HeaderMapping.strategy, [r]⟩ toEmptyTable.endpoint x.input :=
    .of_entryRow rfl (by decide +kernel) rfl (by decide +kernel) (by decide +kernel)
  have hq : Plan.OfEntry ⟨.scan, HeaderMapping.strategy, [template]⟩ toEmptyTable.endpoint y.input :=
    .of_entryRow rfl (by decide +kernel) rfl (by decide +kernel) (by decide +kernel)
  have hbound : Work.scanBound (toEmptyTable.endpoint.fillHeaders y.input) = .ok 100 := by
    decide +kernel
  obtain ⟨x₁, k₁, hx, hstore⟩ := exists_process_put hp.plan
    (show r.toPut = .ok ⟨[0, 0, 0, 0, 0, 0, 0, 5], [(⟨[102], [113]⟩, [120])]⟩ by decide +kernel)
    (by decide)
  have hroom : k₁.connection.rowCount "t" ≤ 100 := by
    rw [hstore]
    decide +kernel
  have hkeys : SortedMap.keys (k₁.connection.table "t") = [[0, 0, 0, 0, 0, 0, 0, 5]] := by
    rw [hstore]
    decide +kernel
  have hstored : template.qualifying (some (Json.str "5").text) none
      (k₁.connection.table toEmptyTable.endpoint.config.table) = [] := by
    rw [hstore]
    decide +kernel
  have hstart : y.input.header Header.startRow = some (.str "5") := header_startRow "int64" "5"
  have hsound := reachable_toEmptyTable.sound
  obtain ⟨y₁, k₂, hy⟩ := hsound.exists_process_scan rfl hx hq.plan
    (Registry.builtIn_neverRefuses .header) rfl rfl hstart hbound (hstored ▸ List.forall_mem_nil _)
  obtain ⟨-, -, -, -, hendpoint⟩ := hsound.granted_after_success hx
  obtain ⟨rows, hshown, houtput⟩ := (hsound.processed (processed_of_process_eq hx)).shown_of_process
    hendpoint rfl hq.plan rfl rfl rfl hstart hbound hroom hy
  rw [hstored] at hshown
  cases hshown
  exact ⟨_, _, x₁, k₁, y₁, k₂, reachable_toEmptyTable, rfl, hp, rfl, hx, hq, rfl,
    scanMessage_scansFrom "int64" "5", hbound, hroom, hy, hkeys, houtput⟩

end Connector

end ColumnConnector
