import ColumnConnector.Proofs.Connector.RoundTrip
import ColumnConnector.Proofs.Invocation.Scans

/-!
# Columns of one type

Suppose every cell that is put declares the type of its column.  Its value is then stored as one of
that type, and whoever reads the column as of the type can read it.  A missing value is stored as no
bytes, whatever the type, and no bytes are neither a number nor a truth value.

This is all that can go wrong.  `Store.FilledBy` describes a table that was filled by puts and
deletes, `Store.FilledBy.decodes` what stands in it, and a get or a scan by the types of the columns
succeeds exactly when no value that it looks at is blank.
-/

namespace ColumnConnector

/-! ### Cells of their column's type -/

/-- The cell declares the type of its column. -/
def Cell.Declares (types : Column → ValueType) (c : Cell) : Prop :=
  ∀ column, c.column = .ok column → c.valueType = some (types column)

namespace Cell

variable {types : Column → ValueType} {c : Cell} {column : Column} {raw : Bytes}

theorem Declares.readType_eq (h : c.Declares types) (hcolumn : c.column = .ok column) :
    c.readType = types column := by
  rw [readType, h column hcolumn]
  rfl

/-- The value that a cell writes can be read as one of the type; only a missing value cannot. -/
theorem Writes.decodes (hw : c.Writes (column, raw)) (h : c.Declares types) :
    (∃ w, (types column).decode raw = .ok w) ∨ raw = [] ∧ c.value = none := by
  have htype := h column (column_eq_ok_iff.2 hw.column)
  rcases hw.stored with hnone | ⟨_, huntyped⟩ | @⟨v, w, t, _, hdeclared, hcoerce⟩
  · exact .inr ⟨rfl, hnone⟩
  · rw [huntyped] at htype
    cases htype
  · rw [hdeclared] at htype
    cases htype
    rw [← CellValue.type_of_coerce hcoerce]
    exact .inl ⟨w, ValueType.decode_encode w⟩

end Cell

/-! ### Tables filled by exchanges -/

/-- The table came about by successful puts and deletes, and all that was put are cells of a kind.
The exchanges may have been processed by different connectors, with anything in between that leaves
the table alone. -/
inductive Store.FilledBy (written : Cell → Prop) (table : String) : Store → Prop where
  | empty {s : Store} : s.table table = ∅ → FilledBy written table s
  | apart {s s' : Store} : FilledBy written table s → s'.table table = s.table table →
      FilledBy written table s'
  | put {π : Type} [Pooling π] {k k' : Connector Store π} {x x' : Exchange} {p : Plan} :
      FilledBy written table k.connection → k.Reachable → k.endpoint.config.table = table →
      k.endpoint.plan (k.endpoint.fillHeaders x.input) = .ok p → p.operation = .put →
      (∀ r ∈ p.batch, ∀ c ∈ r.cells, written c) →
      k.process x = (some (.ok ()), x', k') → FilledBy written table k'.connection
  | delete {π : Type} [Pooling π] {k k' : Connector Store π} {x x' : Exchange} {p : Plan} :
      FilledBy written table k.connection → k.Reachable → k.endpoint.config.table = table →
      k.endpoint.plan (k.endpoint.fillHeaders x.input) = .ok p → p.operation = .delete →
      k.process x = (some (.ok ()), x', k') → FilledBy written table k'.connection

/-- The newest value of the column is blank: there are no bytes, but the type asks for some. -/
def Store.Blank (s : Store) (types : Column → ValueType) (table : String) (key : Bytes)
    (column : Column) : Prop :=
  (types column).isFixedWidth = true ∧
    ∃ time older, s.versions table key column = (time, []) :: older

namespace Store

variable {written : Cell → Prop} {types : Column → ValueType} {table : String} {s s' : Store}
  {key : Bytes} {column : Column}

/-- Every version that puts add is written by a cell of their rows. -/
theorem Gains.origin {batch : RowBatch} {puts : List Put} (hg : s.Gains table puts s')
    (hw : List.Forall₂ Row.Writes batch puts) {version : Int64 × Bytes}
    (hmem : version ∈ s'.versions table key column) :
    version ∈ s.versions table key column ∨
      ∃ r ∈ batch, ∃ c ∈ r.cells, c.Writes (column, version.2) := by
  rw [hg.versions] at hmem
  rcases View.mem_putAll hmem with hold | ⟨e, he, hcell⟩
  · exact .inl hold
  · obtain ⟨r, hr, hwrites⟩ := exists_mem_of_forall₂ hw.flip (List.of_mem_zip he).1
    obtain ⟨c, hc, hwritten⟩ := exists_mem_of_forall₂ hwrites.cells.flip hcell
    exact .inr ⟨r, hr, c, hc, hwritten⟩

theorem Loses.versions_subset {keys : List Bytes} (hl : s.Loses table keys s') :
    s'.versions table key column ⊆ s.versions table key column := by
  rw [versions, Table.versions, hl.rows]
  split
  · exact List.nil_subset _
  · exact List.Subset.refl _

/-- Every version in a filled table is what one of the cells wrote. -/
theorem FilledBy.origin (h : s.FilledBy written table) {version : Int64 × Bytes}
    (hmem : version ∈ s.versions table key column) :
    ∃ c, written c ∧ c.Writes (column, version.2) := by
  induction h with
  | empty hnone =>
    rw [versions, hnone] at hmem
    exact absurd hmem List.not_mem_nil
  | apart _ hsame ih =>
    rw [versions, hsame] at hmem
    exact ih hmem
  | put _ hk htable hplan hop hcells hprocess ih =>
    obtain ⟨puts, hwrites, hgains⟩ := hk.sound.gains_of_put hplan hop hprocess
    rw [htable] at hgains
    rcases hgains.origin hwrites hmem with hold | ⟨r, hr, c, hc, hwritten⟩
    · exact ih hold
    · exact ⟨c, hcells r hr c hc, hwritten⟩
  | delete _ hk htable hplan hop hprocess ih =>
    obtain ⟨keys, -, hloses⟩ := hk.sound.loses_of_delete hplan hop hprocess
    rw [htable] at hloses
    exact ih (hloses.versions_subset hmem)

/-- Every version in a table of typed columns can be read as one of its type, but for those that a
missing value has left in a column of fixed width. -/
theorem FilledBy.decodes (h : s.FilledBy written table)
    (hdeclares : ∀ c, written c → c.Declares types) {version : Int64 × Bytes}
    (hmem : version ∈ s.versions table key column) :
    (∃ w, (types column).decode version.2 = .ok w) ∨
      (types column).isFixedWidth = true ∧ version.2 = [] ∧
        ∃ c, written c ∧ c.column = .ok column ∧ c.value = none := by
  obtain ⟨c, hc, hwrites⟩ := h.origin hmem
  rcases hwrites.decodes (hdeclares c hc) with hread | ⟨hraw, hvalue⟩
  · exact .inl hread
  · cases hwidth : (types column).isFixedWidth with
    | false =>
      rw [hraw]
      exact .inl (ValueType.exists_decode_nil_iff.2 hwidth)
    | true => exact .inr ⟨rfl, hraw, c, hc, Cell.column_eq_ok_iff.2 hwrites.column, hvalue⟩

/-- A cell of the type reads the newest version of its column exactly when that is not blank. -/
theorem FilledBy.reads_iff (h : s.FilledBy written table)
    (hdeclares : ∀ c, written c → c.Declares types) {c : Cell} (hc : c.Declares types)
    (hcolumn : c.column = .ok column) :
    (∀ v older, s.versions table key column = v :: older →
      ∃ w, c.readType.decode v.2 = .ok w) ↔ ¬ s.Blank types table key column := by
  rw [hc.readType_eq hcolumn]
  constructor
  · rintro hread ⟨hwidth, time, older, hversions⟩
    have hnil := ValueType.exists_decode_nil_iff.1 (hread _ _ hversions)
    rw [hwidth] at hnil
    cases hnil
  · intro hfull v older hversions
    have hmem : v ∈ s.versions table key column := by
      rw [hversions]
      exact List.mem_cons_self
    rcases h.decodes hdeclares hmem with hread | ⟨hwidth, hraw, -⟩
    · exact hread
    · refine absurd ⟨hwidth, v.1, older, ?_⟩ hfull
      rw [hversions, ← hraw]

/-- Nothing is blank where no missing value was put into a column of fixed width. -/
theorem FilledBy.not_blank (h : s.FilledBy written table)
    (hdeclares : ∀ c, written c → c.Declares types)
    (hvalued : ∀ c, written c → ∀ column, c.column = .ok column →
      (types column).isFixedWidth = true → c.value ≠ none) :
    ¬ s.Blank types table key column := by
  rintro ⟨hwidth, time, older, hversions⟩
  have hmem : (time, []) ∈ s.versions table key column := by
    rw [hversions]
    exact List.mem_cons_self
  rcases h.decodes hdeclares hmem with hread | ⟨-, -, c, hc, hcolumn, hmissing⟩
  · rw [ValueType.exists_decode_nil_iff, hwidth] at hread
    cases hread
  · exact hvalued c hc column hcolumn hwidth hmissing

end Store

/-! ### Reading -/

/-- The newest version that the plan looks at, by key and column. -/
inductive Plan.LooksAt (p : Plan) (m : Message) (t : Table) : Bytes → Column → Prop where
  | get {r : Row} {c : Cell} {key : Bytes} {column : Column} : p.operation = .get → r ∈ p.batch →
      r.HasKey key → c ∈ r.cells → c.column = .ok column → LooksAt p m t key column
  | scan {template : Row} {bound : Nat} {row : Bytes × RowData} {c : Cell} {column : Column} :
      p.operation = .scan → Work.scanBound m = .ok bound → template ∈ p.batch →
      row ∈ (template.qualifying (m.headerText Header.startRow) none t).take bound →
      c ∈ template.cells → c.Names column → LooksAt p m t row.1 column

/-- The plan is a get of rows with keys and named columns, or an unfiltered scan with a bound, by
texts as keys, of a table that has texts as keys. -/
inductive Plan.Complete (p : Plan) (e : Endpoint) (m : Message) (t : Table) : Prop where
  | get : p.operation = .get → (∀ r ∈ p.batch, r.Gettable) → Complete p e m t
  | scan {bound : Nat} : p.operation = .scan → e.filters = [] → Work.scanBound m = .ok bound →
      (∀ template ∈ p.batch, template.keyType = .utf8) →
      (∀ key ∈ SortedMap.keys t, ∃ text, Utf8.decode key = .ok text) → Complete p e m t

namespace Store.FilledBy

variable {written : Cell → Prop} {types : Column → ValueType} {s : Store} {h : Handle}

/-- A get of named columns finds the row when no value that it asks for is blank. -/
theorem exists_found_iff (hfilled : s.FilledBy written h.table)
    (hdeclares : ∀ c, written c → c.Declares types) {r : Row} (hr : r.Gettable) {key : Bytes}
    (hkey : r.HasKey key) (htypes : ∀ c ∈ r.cells, c.Declares types) :
    (∃ found, r.found s h = .ok found) ↔ ∀ c ∈ r.cells, ∀ column, c.column = .ok column →
      ¬ s.Blank types h.table key column := by
  rw [Row.exists_found_iff hr hkey]
  apply forall₂_congr
  intro c hc
  constructor
  · intro hread column hcolumn
    apply (hfilled.reads_iff hdeclares (htypes c hc) hcolumn).1
    intro v older hversions
    exact hread column v older hcolumn hversions
  · intro hfull column v older hcolumn hversions
    exact (hfilled.reads_iff hdeclares (htypes c hc) hcolumn).2 (hfull column hcolumn) v older
      hversions

/-- An unfiltered scan of a table with texts as keys succeeds when no value that it shows is
blank. -/
theorem exists_scanned_iff (hfilled : s.FilledBy written h.table)
    (hdeclares : ∀ c, written c → c.Declares types) {template : Row} {start : Option String}
    {bound : Nat} (hkeyType : template.keyType = .utf8)
    (hkeys : ∀ key ∈ SortedMap.keys (s.table h.table), ∃ text, Utf8.decode key = .ok text)
    (htypes : ∀ c ∈ template.cells, c.Declares types) :
    (∃ rows, template.scanned s h [] start bound = .ok rows) ↔
      ∀ row ∈ (template.qualifying start none (s.table h.table)).take bound,
        ∀ c ∈ template.cells, ∀ column, c.Names column →
          ¬ s.Blank types h.table row.1 column := by
  rw [Row.exists_scanned_unfiltered_iff]
  apply forall₂_congr
  intro row hrow
  have hentry : row ∈ (s.table h.table).entries :=
    (List.mem_filter.1 (List.mem_of_mem_take hrow)).1
  have hversions : ∀ column, s.versions h.table row.1 column = row.2.versions column := by
    intro column
    rw [versions, Table.versions_of_some (SortedMap.get?_eq_some_iff.2 hentry)]
  constructor
  · intro hread c hc column hnames
    apply (hfilled.reads_iff hdeclares (htypes c hc) hnames.column_eq).1
    intro v older hheld
    rw [hversions] at hheld
    by_contra hdecode
    obtain ⟨e, he⟩ := exists_error_iff.2 hdecode
    exact hread (.cell hc hnames hheld he)
  · intro hfull hunreadable
    cases hunreadable with
    | key he =>
      obtain ⟨text, htext⟩ := hkeys row.1 (List.mem_map_of_mem hentry)
      rw [hkeyType, ValueType.decode, htext] at he
      cases he
    | cell hc hnames hheld he =>
      rw [← hversions] at hheld
      obtain ⟨w, hw⟩ := (hfilled.reads_iff hdeclares (htypes _ hc) hnames.column_eq).2
        (hfull _ hc _ hnames) _ _ hheld
      rw [hw] at he
      cases he

end Store.FilledBy

namespace Connector

variable {π : Type} [Pooling π] {written : Cell → Prop} {types : Column → ValueType}
  {k : Connector Store π} {x : Exchange} {p : Plan} {handle : Handle} {pool : π}

/-- With a handle on the filled table, a complete plan by the types of the columns succeeds when
nothing that it looks at is blank. -/
theorem process_complete_ok_iff (hdeclares : ∀ c, written c → c.Declares types)
    (hfilled : k.connection.FilledBy written handle.table)
    (hcheckout : Pooling.checkout k.pool k.connection = (.granted handle, pool, k.connection))
    (hplan : k.endpoint.plan (k.endpoint.fillHeaders x.input) = .ok p)
    (hwrites : p.strategy.NeverRefuses)
    (hcomplete : p.Complete k.endpoint (k.endpoint.fillHeaders x.input)
      (k.connection.table handle.table))
    (htypes : ∀ r ∈ p.batch, ∀ c ∈ r.cells, c.Declares types) :
    (k.process x).1 = some (.ok ()) ↔ ∀ key column,
      p.LooksAt (k.endpoint.fillHeaders x.input) (k.connection.table handle.table) key column →
        ¬ k.connection.Blank types handle.table key column := by
  cases hcomplete with
  | get hop hgettable =>
    rw [process_get_ok_iff hcheckout hplan hwrites hop]
    constructor
    · rintro hfound key column (⟨-, hr, hkey, hc, hcolumn⟩ | ⟨hscan, -⟩)
      · exact (hfilled.exists_found_iff hdeclares (hgettable _ hr) hkey (htypes _ hr)).1
          (hfound _ hr) _ hc column hcolumn
      · cases hop.symm.trans hscan
    · intro hfull r hr
      obtain ⟨key, hkey⟩ := (hgettable r hr).key
      apply (hfilled.exists_found_iff hdeclares (hgettable r hr) hkey (htypes r hr)).2
      intro c hc column hcolumn
      exact hfull key column (.get hop hr hkey hc hcolumn)
  | @scan bound hop hfilters hbound hkeyTypes hkeys =>
    rw [process_scan_ok_iff hcheckout hplan hwrites hop, RowBatch.exists_scanned_iff hbound,
      hfilters]
    constructor
    · rintro hscanned key column (⟨hget, -⟩ | @⟨template, bound', row, c, _, _, hbound', hr, hrow,
        hc, hnames⟩)
      · cases hop.symm.trans hget
      · cases hbound.symm.trans hbound'
        exact (hfilled.exists_scanned_iff hdeclares (hkeyTypes _ hr) hkeys (htypes _ hr)).1
          (hscanned _ hr) row hrow c hc column hnames
    · intro hfull template hr
      apply (hfilled.exists_scanned_iff hdeclares (hkeyTypes _ hr) hkeys (htypes _ hr)).2
      intro row hrow c hc column hnames
      exact hfull row.1 column (.scan hop hbound hr hrow hc hnames)

/-- A reading plan that is complete, and by the types of the columns, succeeds on a filled table
exactly when no newest version that it looks at is blank.  A version is blank only where a missing
value was put into a column of fixed width, and everything else in the table can be read; so the
plan succeeds if there was no such cell. -/
theorem process_ok_iff_not_blank (hdeclares : ∀ c, written c → c.Declares types)
    (hk : k.Reachable) (hfilled : k.connection.FilledBy written k.endpoint.config.table)
    (hgranted : (Pooling.checkout k.pool k.connection).1 = .granted handle)
    (hplan : k.endpoint.plan (k.endpoint.fillHeaders x.input) = .ok p)
    (hwrites : p.strategy.NeverRefuses)
    (hcomplete : p.Complete k.endpoint (k.endpoint.fillHeaders x.input)
      (k.connection.table k.endpoint.config.table))
    (htypes : ∀ r ∈ p.batch, ∀ c ∈ r.cells, c.Declares types) :
    (∀ key column, ∀ version ∈ k.connection.versions k.endpoint.config.table key column,
      (∃ w, (types column).decode version.2 = .ok w) ∨
        (types column).isFixedWidth = true ∧ version.2 = [] ∧
          ∃ c, written c ∧ c.column = .ok column ∧ c.value = none) ∧
    ((k.process x).1 = some (.ok ()) ↔ ∀ key column,
      p.LooksAt (k.endpoint.fillHeaders x.input) (k.connection.table k.endpoint.config.table)
        key column → ¬ k.connection.Blank types k.endpoint.config.table key column) ∧
    ((∀ c, written c → ∀ column, c.column = .ok column → (types column).isFixedWidth = true →
      c.value ≠ none) → (k.process x).1 = some (.ok ())) := by
  obtain ⟨outcome, pool, hcheckout, hchecks⟩ := Pooling.checkout_checks k.pool k.connection
  rw [hcheckout] at hgranted
  cases hgranted
  have htable := hk.sound.pool.table_of_granted hchecks
  rw [← htable] at hfilled hcomplete ⊢
  have hiff := process_complete_ok_iff hdeclares hfilled hcheckout hplan hwrites hcomplete htypes
  refine ⟨?_, hiff, ?_⟩
  · intro key column version hmem
    exact hfilled.decodes hdeclares hmem
  · intro hvalued
    apply hiff.2
    intro key column _
    exact hfilled.not_blank hdeclares hvalued

/-- A number given as text and a missing text are put and can be read. -/
theorem process_ok_iff_not_blank_texts :
    let number : Cell := { family := some "f", qualifier := some "n", valueType := some .int64 }
    let text : Cell := { family := some "f", qualifier := some "t", valueType := some .utf8 }
    let r : Row :=
      { id := some (.utf8 "r"), cells := [{ number with value := some (.utf8 "7") }, text] }
    let k : Connector Store :=
      .start { config := { table := "t", strategyName := some "body" } }
        (Store.createTable (.keeping 3) "t")
    let x : Exchange := { input := { body := some (RowBatch.toJson [r]) } }
    let y : Exchange :=
      { x with input := x.input.setHeader Header.operation (.str "CamelHBaseGet") }
    (k.process x).1 = some (.ok ()) ∧ ((k.process x).2.2.process y).1 = some (.ok ()) := by
  intro number text r k x y
  have hk : k.Reachable := .start _ (.change (.keeping 3) (.createTable "t"))
  have hput : k.endpoint.plan (k.endpoint.fillHeaders x.input) =
      .ok ⟨.put, BodyMapping.strategy, [r]⟩ := by
    subst k number text r x
    rfl
  have hget : k.endpoint.plan (k.endpoint.fillHeaders y.input) =
      .ok ⟨.get, BodyMapping.strategy, [r]⟩ := by
    subst k number text r x y
    rfl
  have hok : (k.process x).1 = some (.ok ()) := by
    subst k number text r x
    rfl
  -- From here on the connector after the put is any connector that the put can lead to.
  obtain ⟨x₁, k₁, hx⟩ : ∃ x₁ k₁, k.process x = (some (.ok ()), x₁, k₁) :=
    ⟨_, _, Prod.ext hok rfl⟩
  obtain ⟨handle, pool, hcheckout, -, hendpoint⟩ := hk.sound.granted_after_success hx
  have hreachable : k₁.Reachable := by
    have hnext := hk.process x
    rw [hx] at hnext
    exact hnext
  let types : Column → ValueType := fun column =>
    if column = ⟨[102], [110]⟩ then .int64 else .utf8
  have hdeclares : ∀ c ∈ r.cells, c.Declares types := by
    refine List.forall_mem_cons.2 ⟨?_, List.forall_mem_singleton.2 ?_⟩
    · intro column hcolumn
      cases hcolumn
      rfl
    · intro column hcolumn
      cases hcolumn
      rfl
  have hfilled : k₁.connection.FilledBy (· ∈ r.cells) k.endpoint.config.table := by
    refine .put (.empty ?_) hk rfl hput rfl (List.forall_mem_singleton.2 fun c hc => hc) hx
    show k.connection.table "t" = ∅
    rfl
  have hgettable : r.Gettable :=
    ⟨⟨_, .utf8 "r", rfl, rfl⟩, List.cons_ne_nil _ _,
      List.forall_mem_cons.2 ⟨⟨_, rfl⟩, List.forall_mem_singleton.2 ⟨_, rfl⟩⟩⟩
  rw [← hendpoint] at hget hfilled
  obtain ⟨-, -, hvalued⟩ := process_ok_iff_not_blank hdeclares hreachable hfilled
    (congrArg Prod.fst hcheckout) hget (Registry.builtIn_neverRefuses .body)
    (.get rfl (List.forall_mem_singleton.2 hgettable)) (List.forall_mem_singleton.2 hdeclares)
  rw [hx]
  refine ⟨rfl, hvalued (List.forall_mem_cons.2 ⟨?_, List.forall_mem_singleton.2 ?_⟩)⟩
  · intro column _ _
    exact Option.some_ne_none _
  · intro column hcolumn hwidth
    cases hcolumn
    exact absurd hwidth (by decide)

/-- A missing number is put and cannot be read. -/
theorem process_get_fails_on_blank :
    let c : Cell := { family := some "f", qualifier := some "n", valueType := some .int64 }
    let r : Row := { id := some (.utf8 "r"), cells := [c] }
    let k : Connector Store :=
      .start { config := { table := "t", strategyName := some "body" } }
        (Store.createTable (.keeping 3) "t")
    let x : Exchange := { input := { body := some (RowBatch.toJson [r]) } }
    let y : Exchange :=
      { x with input := x.input.setHeader Header.operation (.str "CamelHBaseGet") }
    let k₁ : Connector Store := (k.process x).2.2
    let p : Plan := ⟨.get, BodyMapping.strategy, [r]⟩
    k₁.Reachable ∧ k₁.connection.FilledBy (· = c) "t" ∧ c.Declares (fun _ => .int64) ∧
      k₁.endpoint.plan (k₁.endpoint.fillHeaders y.input) = .ok p ∧
      p.Complete k₁.endpoint (k₁.endpoint.fillHeaders y.input) (k₁.connection.table "t") ∧
      (k₁.process y).1 = some (.error (.conversion (.invalidLength .int64 0))) := by
  intro c r k x y k₁ p
  have hk : k.Reachable := .start _ (.change (.keeping 3) (.createTable "t"))
  have hput : k.endpoint.plan (k.endpoint.fillHeaders x.input) =
      .ok ⟨.put, BodyMapping.strategy, [r]⟩ := by
    subst k c r x
    rfl
  have hok : (k.process x).1 = some (.ok ()) := by
    subst k c r x
    rfl
  have hplan : k₁.endpoint.plan (k₁.endpoint.fillHeaders y.input) = .ok p := by
    subst p k₁ y x k r c
    rfl
  have hx : k.process x = (some (.ok ()), _, k₁) := Prod.ext hok rfl
  have hfilled : k₁.connection.FilledBy (· = c) "t" :=
    .put (.empty rfl) hk rfl hput rfl (List.forall_mem_singleton.2 (List.forall_mem_singleton.2 rfl))
      hx
  have hgettable : r.Gettable :=
    ⟨⟨_, .utf8 "r", rfl, rfl⟩, List.cons_ne_nil _ _, List.forall_mem_singleton.2 ⟨_, rfl⟩⟩
  refine ⟨.process x hk, hfilled, fun _ _ => rfl, hplan,
    .get rfl (List.forall_mem_singleton.2 hgettable), ?_⟩
  let g : Get := { row := [114], columns := [⟨[102], [110]⟩] }
  have hblank : k₁.connection.get { table := "t" } g =
      .ofCells [114] [⟨[114], [102], [110], 1, []⟩] := by
    subst k₁ x k r c
    rfl
  have hunread : ∀ s : Store,
      s.get { table := "t" } g = .ofCells [114] [⟨[114], [102], [110], 1, []⟩] →
      [r].mapM (Row.found s { table := "t" }) =
        .error (.conversion (.invalidLength .int64 0)) := by
    intro s hs
    have hrow : r.found s { table := "t" } = .error (.conversion (.invalidLength .int64 0)) := by
      show (r.ofGet (s.get { table := "t" } g)).mapError ConnectorError.conversion = _
      rw [hs, StoreResult.ofCells, List.mergeSort_singleton]
      rfl
    rw [List.mapM_cons, hrow]
    rfl
  obtain ⟨handle, pool, hcheckout, htable, -⟩ := hk.sound.granted_after_success hx
  have hhandle : handle = { table := "t" } := by
    have hpending := pending_of_granted hcheckout
    cases handle
    cases hpending
    cases htable
    rfl
  rw [hhandle] at hcheckout
  exact congrArg Prod.fst
    (process_eq_of_processed (.failed hcheckout hplan (.unfetched rfl (hunread _ hblank))))

end Connector

end ColumnConnector
