import ColumnConnector.Proofs.Json.RoundTrip
import ColumnConnector.Proofs.Mapping.Grouping
import ColumnConnector.Proofs.Value.Texts

/-!
# Results read back from headers

What is written of a batch are its cells, each with the identifier of its row and without types.  A
message that holds nothing else is read as the batch again when the types of identifiers and values
are declared, which only for texts and bytes is not needed
(`HeaderMapping.resolve_declare_write`).

A value that is read as its own type comes back, so every entry is read as the cell that it was
written of (`HeaderMapping.Holds.entryRow_eq`).  A cell with a family and a qualifier counts as an
entry even if nothing else is there, so no entry hides those behind it.  And the entries of a row make
up the row (`HeaderMapping.foldl_addEntry_rowCells`), because its cells are of different columns and
no other row has its identifier.
-/

namespace ColumnConnector

/-- A row whose cells are of different columns, both parts of which are there, and that has no
doubles. -/
structure Row.Legible (r : Row) : Prop where
  nonempty : r.cells ≠ []
  distinct : r.Distinct
  named : ∀ c ∈ r.cells, ∃ f q, c.family = some f ∧ c.qualifier = some q
  id : ∀ v, r.id = some v → v.type ≠ .float64
  values : ∀ c ∈ r.cells, ∀ v, c.value = some v → v.type ≠ .float64

/-- Such rows with different identifiers. -/
structure RowBatch.Legible (batch : RowBatch) : Prop where
  rows : ∀ r ∈ batch, r.Legible
  ids : batch.Pairwise fun r s => r.id ≠ s.id

/-- The declared type is that of the value; it may be open for a text or for bytes, and where there is
no value it is any. -/
def ValueType.Tells (declared : Option ValueType) : Option CellValue → Prop
  | none => True
  | some v => declared = some v.type ∨ declared = none ∧ (v.type = .utf8 ∨ v.type = .bytes)

instance (declared : Option ValueType) : (value : Option CellValue) →
    Decidable (ValueType.Tells declared value)
  | none => inferInstanceAs (Decidable True)
  | some _ => inferInstanceAs (Decidable (_ ∨ _))

/-- The cell `d` is `c` with a type that tells its value, and without a time. -/
structure Cell.Retyped (c d : Cell) : Prop where
  family : d.family = c.family
  qualifier : d.qualifier = c.qualifier
  value : d.value = c.value
  valueType : ValueType.Tells d.valueType c.value
  timestamp : d.timestamp = none

/-- The row `s` is `r` with types that tell its identifier and its values, and without times. -/
structure Row.Retyped (r s : Row) : Prop where
  id : s.id = r.id
  rowType : ValueType.Tells s.rowType r.id
  timestamp : s.timestamp = none
  cells : List.Forall₂ Cell.Retyped r.cells s.cells

namespace Row

theorem Retyped.map_address {r s : Row} (h : r.Retyped s) :
    s.cells.map Cell.address = r.cells.map Cell.address := by
  have haddress : List.Forall₂ (fun c d => d.address = c.address) r.cells s.cells :=
    h.cells.imp fun c d hcd => by rw [Cell.address, hcd.family, hcd.qualifier, Cell.address]
  have hmaps := List.forall₂_map_right_iff.2 (List.forall₂_map_left_iff.2 haddress.flip)
  exact List.forall₂_eq_eq_eq ▸ hmaps

theorem Retyped.legible {r s : Row} (h : r.Retyped s) (hr : r.Legible) : s.Legible where
  nonempty := by
    intro hnil
    have hcells := h.cells
    rw [hnil, List.forall₂_nil_right_iff] at hcells
    exact hr.nonempty hcells
  distinct := by
    rw [distinct_iff_nodup, h.map_address, ← distinct_iff_nodup]
    exact hr.distinct
  named := by
    intro d hd
    obtain ⟨c, hc, hcd⟩ := exists_mem_of_forall₂ h.cells.flip hd
    obtain ⟨f, q, hf, hq⟩ := hr.named c hc
    exact ⟨f, q, hcd.family.trans hf, hcd.qualifier.trans hq⟩
  id := h.id ▸ hr.id
  values := by
    intro d hd
    obtain ⟨c, hc, hcd⟩ := exists_mem_of_forall₂ h.cells.flip hd
    rw [hcd.value]
    exact hr.values c hc

end Row

theorem RowBatch.Legible.retyped {batch typed : RowBatch} (h : batch.Legible)
    (ht : List.Forall₂ Row.Retyped batch typed) : typed.Legible where
  rows := by
    intro s hs
    obtain ⟨r, hr, hrs⟩ := exists_mem_of_forall₂ ht.flip hs
    exact hrs.legible (h.rows r hr)
  ids := by
    refine pairwise_of_forall₂ ht h.ids fun r s r' s' hr hs hne => ?_
    rw [hr.id, hs.id]
    exact hne

namespace HeaderMapping

open Header

/-! ### The types of entries -/

/-- The cells of a batch, each with its row. -/
def rowCells (batch : RowBatch) : List (Row × Cell) :=
  batch.flatMap fun r => r.cells.map fun c => (r, c)

/-- The row with one of its cells only. -/
def only (slot : Row × Cell) : Row := { slot.1 with cells := [slot.2] }

/-- What names the types of an entry, as far as they are declared. -/
structure TypeNames where
  rowType : Option String := none
  valueType : Option String := none

/-- The text names the type, or neither is there. -/
def Names : Option String → Option ValueType → Prop := Option.Rel fun s t => ValueType.read s = .ok t

/-- The names are those of the types of the row and of the cell. -/
structure TypeNames.For (names : TypeNames) (slot : Row × Cell) : Prop where
  rowType : Names names.rowType slot.1.rowType
  valueType : Names names.valueType slot.2.valueType

def TypeNames.fields (names : TypeNames) : List (String × Json) :=
  Json.optionalField Header.rowType (names.rowType.map .str) ++
    Json.optionalField Header.valueType (names.valueType.map .str)

/-- Add the headers that declare the types of the entries. -/
def declare (names : List TypeNames) (m : Message) : Message :=
  ((names.map TypeNames.fields).zipIdx 1).foldl setFields m

theorem entries_eq_map_rowCells (batch : RowBatch) :
    entries batch = (rowCells batch).map fun slot => (slot.1.id, slot.2) := by
  rw [entries, rowCells, List.map_flatMap]
  simp only [List.map_map, Function.comp_def]

theorem mem_rowCells {batch : RowBatch} {slot : Row × Cell} :
    slot ∈ rowCells batch ↔ slot.1 ∈ batch ∧ slot.2 ∈ slot.1.cells := by
  obtain ⟨r, c⟩ := slot
  simp only [rowCells, List.mem_flatMap, List.mem_map, Prod.mk.injEq]
  constructor
  · rintro ⟨r, hr, c, hc, rfl, rfl⟩
    exact ⟨hr, hc⟩
  · rintro ⟨hr, hc⟩
    exact ⟨r, hr, c, hc, rfl, rfl⟩

theorem forall₂_rowCells {batch typed : RowBatch} (h : List.Forall₂ Row.Retyped batch typed) :
    List.Forall₂ (fun slot slot' => slot.1.Retyped slot'.1 ∧ slot.2.Retyped slot'.2)
      (rowCells batch) (rowCells typed) := by
  induction h with
  | nil => exact .nil
  | @cons r s _ _ hrs _ ih =>
    refine List.rel_append ?_ ih
    rw [List.forall₂_map_left_iff, List.forall₂_map_right_iff]
    exact hrs.cells.imp fun c d hcd => ⟨hrs, hcd⟩

/-! ### Reading an entry -/

theorem valueOf_of_ne_bytes {t : ValueType} (h : t ≠ .bytes) (j : Json) :
    valueOf (some t) j = t.parse j.text := by
  rw [valueOf, if_neg (by simpa using h)]
  rfl

/-- A value that is no double is read as its own type, and a text or bytes also without a type. -/
theorem valueOf_contentJson {declared : Option ValueType} {v : CellValue}
    (hfloat : v.type ≠ .float64) (h : ValueType.Tells declared (some v)) :
    valueOf declared v.contentJson = .ok v := by
  by_cases hbytes : v.type = .bytes
  · cases v with
    | bytes raw =>
      have hany : declared.all (· = .bytes) = true := by
        rcases h with rfl | ⟨rfl, -⟩ <;> rfl
      rw [valueOf, if_pos hany, CellValue.contentJson, (Json.restores_bytes raw).read_write]
    | utf8 | int32 | int64 | float64 | bool => cases hbytes
  · rcases h with rfl | ⟨rfl, hopen⟩
    · rw [valueOf_of_ne_bytes hbytes, CellValue.text_contentJson hbytes hfloat]
      exact ValueType.parse_text hbytes hfloat
    · have htext := hopen.resolve_right hbytes
      cases v with
      | utf8 s => rfl
      | bytes | int32 | int64 | float64 | bool => cases htext

theorem isNull_contentJson {v : CellValue} (h : v.type ≠ .float64) :
    v.contentJson.isNull = false := by
  cases v with
  | float64 x => exact absurd rfl h
  | bytes | utf8 | int32 | int64 | bool => rfl

section Parts

variable {m : Message} {name : String}

theorem valueAt_eq_of_get? {value : Option CellValue}
    (h : m.headers.get? name = some (valueJson value))
    (hfloat : ∀ v, value = some v → v.type ≠ .float64) {declared : Option ValueType}
    (htells : ValueType.Tells declared value) : valueAt m name declared = .ok value := by
  rw [valueAt, Message.header, h]
  cases value with
  | none => rfl
  | some v =>
    have hnull := isNull_contentJson (hfloat v rfl)
    rw [Option.filter_some_pos (by rw [valueJson, Option.elim_some, hnull]; rfl)]
    exact map_eq_ok_iff.2 ⟨v, valueOf_contentJson (hfloat v rfl) htells, rfl⟩

theorem headerText_eq_of_get? {text : Option String} (h : m.headers.get? name = text.map .str) :
    m.headerText name = text := by
  rw [Message.headerText, Message.header, h]
  cases text <;> rfl

/-- A type that is named is declared. -/
theorem declaredType_eq_of_get? {text : Option String} {declared : Option ValueType}
    (h : m.headers.get? name = text.map .str) (hnames : Names text declared) :
    declaredType m name = .ok declared := by
  rw [declaredType, headerText_eq_of_get? h]
  cases hnames with
  | none => rfl
  | @some s t hread =>
    -- A blank text names no type.
    have hblank : (!(Text.trim s).isEmpty) = true := by
      rw [Bool.not_eq_true', ← Bool.not_eq_true]
      intro hempty
      have hnone : ValueType.spellings.lookup (Text.lowercase "") = none := by decide
      simp only [ValueType.read, String.isEmpty_iff.1 hempty, hnone] at hread
      cases hread
    have hgiven : (some s).filter (fun s => !(Text.trim s).isEmpty) = some s :=
      Option.filter_some_pos hblank
    rw [hgiven]
    exact map_eq_ok_iff.2 ⟨t, hread, rfl⟩

end Parts

/-- What stands in the headers of an entry that is written of a cell and whose types are declared. -/
structure Holds (m : Message) (index : Nat) (entry : Option CellValue × Cell) (names : TypeNames) :
    Prop where
  written : ∀ f ∈ fields entry, m.headers.get? (numbered f.1 index) = some f.2
  rowType : m.headers.get? (numbered Header.rowType index) = names.rowType.map .str
  valueType : m.headers.get? (numbered Header.valueType index) = names.valueType.map .str

section Holding

variable {m : Message} {index : Nat} {slot slot' : Row × Cell} {names : TypeNames}
  (h : Holds m index (slot.1.id, slot.2) names) (hr : slot.1.Legible) (hc : slot.2 ∈ slot.1.cells)
include h hr hc

theorem Holds.hasEntry_eq : hasEntry m index = true := by
  obtain ⟨f, q, hf, -⟩ := hr.named slot.2 hc
  have hfamily := h.written (family, nameJson slot.2.family) (by simp [fields])
  rw [hasEntry, List.any_cons, List.any_cons, hasHeader_eq_of_get? hfamily, isNull_nameJson, hf]
  simp

/-- The entry is read as the cell with the declared types. -/
theorem Holds.entryRow_eq (hnames : names.For slot') (hrow : slot.1.Retyped slot'.1)
    (hcell : slot.2.Retyped slot'.2) : entryRow m index = .ok (only slot') := by
  obtain ⟨f, q, hf, hq⟩ := hr.named slot.2 hc
  have hid : valueAt m (numbered rowId index) slot'.1.rowType = .ok slot.1.id :=
    valueAt_eq_of_get? (h.written (rowId, valueJson slot.1.id) (by simp [fields])) hr.id hrow.rowType
  have hvalue : valueAt m (numbered value index) slot'.2.valueType = .ok slot.2.value :=
    valueAt_eq_of_get? (h.written (value, valueJson slot.2.value) (by simp [fields]))
      (hr.values slot.2 hc) hcell.valueType
  have hfamily : m.headerText (numbered family index) = some f :=
    headerText_eq_of_get? (h.written (family, nameJson slot.2.family) (by simp [fields]) |>.trans
      (by rw [hf]; rfl))
  have hqualifier : m.headerText (numbered qualifier index) = some q :=
    headerText_eq_of_get? (h.written (qualifier, nameJson slot.2.qualifier) (by simp [fields])
      |>.trans (by rw [hq]; rfl))
  have hcells : entryCells m index = .ok [slot'.2] := by
    rw [entryCells, hfamily, hqualifier]
    refine bind_eq_ok_iff.2 ⟨_, declaredType_eq_of_get? h.valueType hnames.valueType, ?_⟩
    refine bind_eq_ok_iff.2 ⟨_, hvalue, ?_⟩
    rw [← hf, ← hq, ← hcell.family, ← hcell.qualifier, ← hcell.value]
    cases slot' with
    | mk s d =>
      cases d
      cases hcell.timestamp
      rfl
  refine bind_eq_ok_iff.2 ⟨_, declaredType_eq_of_get? h.rowType hnames.rowType, ?_⟩
  refine bind_eq_ok_iff.2 ⟨_, hid, bind_eq_ok_iff.2 ⟨_, hcells, ?_⟩⟩
  rw [← hrow.id, only, ← hrow.timestamp]
  rfl

end Holding

/-! ### Entries make up rows -/

theorem addEntry_append {done : RowBatch} {e : Row} (h : ∀ s ∈ done, sameId s e = false)
    (rest : RowBatch) : addEntry e (done ++ rest) = done ++ addEntry e rest := by
  induction done with
  | nil => rfl
  | cons s done ih =>
    obtain ⟨hs, hdone⟩ := List.forall_mem_cons.1 h
    rw [List.cons_append, addEntry, hs, if_neg Bool.false_ne_true, ih hdone]
    rfl

section OneRow

variable {r : Row} (hr : r.Legible) {done : RowBatch} (hdone : ∀ s ∈ done, s.id ≠ r.id)
include hr hdone

/-- Entries of a row pass by the rows in front of it. -/
theorem addEntry_only_append (c : Cell) (rest : RowBatch) :
    addEntry (only (r, c)) (done ++ rest) = done ++ addEntry (only (r, c)) rest := by
  refine addEntry_append (fun s hs => ?_) rest
  rw [sameId_comm, ← Bool.not_eq_true, sameId_iff (r := only (r, c)) hr.id]
  exact (hdone s hs).symm

theorem foldl_addEntry_join (cells : List Cell) {s : Row} (hs : s.id = r.id) :
    (cells.map fun c => only (r, c)).foldl (fun batch e => addEntry e batch) (done ++ [s]) =
      done ++ [cells.foldl Row.addCell s] := by
  induction cells generalizing s with
  | nil => rfl
  | cons c rest ih =>
    have hsame : sameId s (only (r, c)) = true := (sameId_iff (hs ▸ hr.id)).2 hs
    rw [List.map_cons, List.foldl_cons, addEntry_only_append hr hdone, addEntry, if_pos hsame]
    exact ih ((Row.id_addCell s c).trans hs)

/-- The cells of a row, entry by entry, make up the row: the first begins it, the others join. -/
theorem foldl_addEntry_cells :
    (r.cells.map fun c => only (r, c)).foldl (fun batch e => addEntry e batch) done =
      done ++ [r] := by
  obtain ⟨c, rest, hcells⟩ := List.exists_cons_of_ne_nil hr.nonempty
  have hdistinct := hr.distinct
  rw [Row.Distinct, hcells, List.pairwise_cons] at hdistinct
  have hfirst := addEntry_only_append hr hdone c []
  rw [List.append_nil] at hfirst
  rw [hcells, List.map_cons, List.foldl_cons, hfirst]
  show (rest.map fun c => only (r, c)).foldl _ (done ++ [only (r, c)]) = _
  rw [foldl_addEntry_join hr hdone rest (s := only (r, c)) rfl, Row.foldl_addCell _ ?_ hdistinct.2]
  · show done ++ [{ r with cells := c :: rest }] = _
    rw [← hcells]
  · intro d hd
    rw [Row.hasColumnOf, only, List.any_cons, hdistinct.1 d hd]
    rfl

end OneRow

/-- The entries of a batch make up the batch. -/
theorem foldl_addEntry_rowCells {batch : RowBatch} (h : batch.Legible) {done : RowBatch}
    (hdone : ∀ s ∈ done, ∀ r ∈ batch, s.id ≠ r.id) :
    ((rowCells batch).map only).foldl (fun batch e => addEntry e batch) done = done ++ batch := by
  induction batch generalizing done with
  | nil => exact (List.append_nil done).symm
  | cons r rest ih =>
    obtain ⟨hr, hrows⟩ := List.forall_mem_cons.1 h.rows
    obtain ⟨hfirst, hids⟩ := List.pairwise_cons.1 h.ids
    have hcells : (rowCells (r :: rest)).map only =
        (r.cells.map fun c => only (r, c)) ++ (rowCells rest).map only := by
      rw [rowCells, List.flatMap_cons, List.map_append, List.map_map]
      rfl
    rw [hcells, List.foldl_append,
      foldl_addEntry_cells hr fun s hs => hdone s hs r List.mem_cons_self, ih ⟨hrows, hids⟩]
    · exact List.append_assoc done [r] rest
    · intro s hs t ht
      rcases List.mem_append.1 hs with hold | hlast
      · exact hdone s hold t (List.mem_cons_of_mem r ht)
      · rw [List.mem_singleton.1 hlast]
        exact hfirst t ht

/-! ### Reading what was written -/

theorem TypeNames.ofEntry_fields (names : TypeNames) : OfEntry names.fields := by
  obtain ⟨rowName, valueName⟩ := names
  have hparts : Header.rowType ∈ ofEntry ∧ Header.valueType ∈ ofEntry := by decide
  have hne : Header.rowType ≠ Header.valueType := by decide
  cases rowName <;> cases valueName <;>
    simp [OfEntry, TypeNames.fields, Json.optionalField, hparts, hne]

/-- What stands in the headers of the entries when a batch was written and types were declared. -/
theorem get?_declare_write (names : List TypeNames) (batch : RowBatch) {name : String}
    (hname : name ∈ ofEntry) (i : Nat) :
    (declare names (write batch {})).headers.get? (numbered name (i + 1)) =
      (names[i]?.bind fun n => n.fields.lookup name).or
        ((entries batch)[i]?.bind fun entry => (fields entry).lookup name) := by
  have hfields : ∀ l ∈ names.map TypeNames.fields, OfEntry l := by
    intro l hl
    obtain ⟨n, -, rfl⟩ := List.mem_map.1 hl
    exact n.ofEntry_fields
  have hi : 1 ≤ i + 1 := Nat.le_add_left 1 i
  rw [declare, get?_foldl_setFields hname (Nat.le_refl 1) hi hfields, if_pos hi,
    get?_write hname hi, Nat.add_sub_cancel, List.getElem?_map, Option.bind_map]
  rw [show ({} : Message).headers.get? (numbered name (i + 1)) = none from rfl, Option.or_none]
  rfl

/-- The entry of a cell holds what was written of it and the names of its types. -/
theorem holds_declare_write {names : List TypeNames} {batch : RowBatch} {i : Nat} {n : TypeNames}
    {entry : Option CellValue × Cell} (hn : names[i]? = some n)
    (hentry : (entries batch)[i]? = some entry) :
    Holds (declare names (write batch {})) (i + 1) entry n := by
  have hget : ∀ name ∈ ofEntry, (declare names (write batch {})).headers.get?
      (numbered name (i + 1)) = (n.fields.lookup name).or ((fields entry).lookup name) := by
    intro name hname
    rw [get?_declare_write names batch hname i, hn, hentry]
    rfl
  obtain ⟨rowName, valueName⟩ := n
  constructor
  · intro f hf
    rw [hget f.1 (mem_ofEntry_of_mem_fields hf), lookup_fields hf]
    -- No type stands where a part is written.
    have hnone : (TypeNames.fields ⟨rowName, valueName⟩).lookup f.1 = none := by
      simp only [fields, List.mem_cons, List.not_mem_nil, or_false] at hf
      rcases hf with rfl | rfl | rfl | rfl <;> cases rowName <;> cases valueName <;> rfl
    rw [hnone]
    rfl
  · rw [hget Header.rowType (by decide)]
    cases rowName <;> cases valueName <;> rfl
  · rw [hget Header.valueType (by decide)]
    cases rowName <;> cases valueName <;> rfl

/-- Written to an empty message, with names for the types of identifiers and values, a batch is read
as the rows with these types.  A name may be left out, throughout a row for its identifier and for
each value on its own, where there is no value or where this is a text or bytes; what is read then has
no type there. -/
theorem resolve_declare_write {batch typed : RowBatch} (h : batch.Legible)
    (ht : List.Forall₂ Row.Retyped batch typed) {names : List TypeNames}
    (hnames : List.Forall₂ TypeNames.For names (rowCells typed)) :
    resolve (declare names (write batch {})) = .ok typed := by
  have hslots := forall₂_rowCells ht
  have hsize : (rowCells batch).length = (rowCells typed).length := hslots.length_eq
  have hnamed : names.length = (rowCells typed).length := hnames.length_eq
  have hentries : (entries batch).length = (rowCells typed).length := by
    rw [entries_eq_map_rowCells, List.length_map, hsize]
  have hread : ∀ i (e : Row), ((rowCells typed).map only)[i]? = some e →
      hasEntry (declare names (write batch {})) (i + 1) = true ∧
        entryRow (declare names (write batch {})) (i + 1) = .ok e := by
    intro i e he
    rw [List.getElem?_map, Option.map_eq_some_iff] at he
    obtain ⟨slot', hslot', rfl⟩ := he
    obtain ⟨hi, rfl⟩ := List.getElem?_eq_some_iff.1 hslot'
    have hb : i < (rowCells batch).length := hsize ▸ hi
    have hn : i < names.length := hnamed ▸ hi
    have hslot := (List.forall₂_iff_get.1 hslots).2 i hb hi
    have hfor := (List.forall₂_iff_get.1 hnames).2 i hn hi
    obtain ⟨hr, hc⟩ := mem_rowCells.1 (List.getElem_mem hb)
    have hlegible := h.rows _ hr
    have hholds : Holds (declare names (write batch {})) (i + 1)
        ((rowCells batch)[i].1.id, (rowCells batch)[i].2) names[i] := by
      refine holds_declare_write (List.getElem?_eq_getElem hn) ?_
      rw [entries_eq_map_rowCells, List.getElem?_map, List.getElem?_eq_getElem hb]
      rfl
    exact ⟨hholds.hasEntry_eq hlegible hc,
      hholds.entryRow_eq hlegible hc hfor hslot.1 hslot.2⟩
  have hends : hasEntry (declare names (write batch {})) ((rowCells typed).length + 1) = false := by
    rw [hasEntry_congr (m := {}) fun name hname => ?_]
    · rfl
    · rw [get?_declare_write names batch hname, List.getElem?_eq_none (Nat.le_of_eq hnamed),
        List.getElem?_eq_none (Nat.le_of_eq hentries)]
      rfl
  rw [resolve_eq_foldl_addEntry hread (by rw [List.length_map]; exact hends),
    foldl_addEntry_rowCells (h.retyped ht) fun s hs => absurd hs List.not_mem_nil]
  rfl

/-- A row without identifier, one with a number for it and one with the text of that number are told
apart and read back; where there is no value any type may be declared. -/
theorem resolve_declare_write_three :
    let a : Cell := { family := some "f", qualifier := some "a" }
    let b : Cell := { family := some "f", qualifier := some "b" }
    let names : List TypeNames := [{}, { valueType := some "boolean" },
      { rowType := some "Long", valueType := some "int" }, { rowType := some " int64 " },
      { valueType := some "double" }]
    resolve (declare names (write [
      { cells := [{ a with value := some (.utf8 "x"), timestamp := some 7 },
        { b with value := some (.bool true) }] },
      { id := some (.int64 (-7)), timestamp := some 7, cells := [
        { b with value := some (.int32 42) }, { a with value := some (.bytes [0, 255]) }] },
      { id := some (.utf8 "-7"), cells := [a] }] {})) = .ok [
      { cells := [{ a with value := some (.utf8 "x") },
        { b with value := some (.bool true), valueType := some .bool }] },
      { id := some (.int64 (-7)), rowType := some .int64, cells := [
        { b with value := some (.int32 42), valueType := some .int32 },
        { a with value := some (.bytes [0, 255]) }] },
      { id := some (.utf8 "-7"), cells := [{ a with valueType := some .float64 }] }] := by
  intro a b names
  refine resolve_declare_write ⟨?_, by decide⟩ ?_ ?_
  · intro r hr
    simp only [List.mem_cons, List.not_mem_nil, or_false] at hr
    rcases hr with rfl | rfl | rfl <;> constructor <;>
      simp [a, b, Row.Distinct, Cell.sameColumn, CellValue.type]
  · have hcell : ∀ (c d : Cell), d = { c with valueType := d.valueType, timestamp := none } →
        ValueType.Tells d.valueType c.value → c.Retyped d := by
      rintro c d hd htells
      rw [hd]
      exact ⟨rfl, rfl, rfl, htells, rfl⟩
    have hx := hcell { a with value := some (.utf8 "x"), timestamp := some 7 }
      { a with value := some (.utf8 "x") } rfl (by decide)
    have htrue := hcell { b with value := some (.bool true) }
      { b with value := some (.bool true), valueType := some .bool } rfl (by decide)
    have hnumber := hcell { b with value := some (.int32 42) }
      { b with value := some (.int32 42), valueType := some .int32 } rfl (by decide)
    have hbytes := hcell { a with value := some (.bytes [0, 255]) }
      { a with value := some (.bytes [0, 255]) } rfl (by decide)
    have hbare := hcell a { a with valueType := some .float64 } rfl (by decide)
    exact .cons ⟨rfl, by decide, rfl, .cons hx (.cons htrue .nil)⟩
      (.cons ⟨rfl, by decide, rfl, .cons hnumber (.cons hbytes .nil)⟩
        (.cons ⟨rfl, by decide, rfl, .cons hbare .nil⟩ .nil))
  · exact .cons ⟨.none, .none⟩ (.cons ⟨.none, .some (by decide)⟩
      (.cons ⟨.some (by decide), .some (by decide)⟩ (.cons ⟨.some (by decide), .none⟩
        (.cons ⟨.none, .some (by decide)⟩ .nil))))

end HeaderMapping

end ColumnConnector
