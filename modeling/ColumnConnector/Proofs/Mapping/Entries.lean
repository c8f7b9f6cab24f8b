import ColumnConnector.Proofs.Mapping.Grouping
import Mathlib.Data.List.Induction
import Mathlib.Data.List.Perm.Basic

/-!
# Untyped entries

A message carries a list of untyped entries when these stand in its numbered headers, one after the
other, and nothing stands behind the last.  Such a message is read as text: identifiers and values
that are scalars come as the texts of their JSON form.

Reading groups the entries by identifier, each into the row that is there already or into a further
one at the end.  Entries for different places are all kept, and the rows hold nothing else
(`HeaderMapping.Groups`); only the order of the entries is lost where rows were interleaved.
-/

namespace ColumnConnector

/-- A text, a number or a truth value. -/
def Json.isScalar : Json → Bool
  | .str _ | .int _ | .float _ | .bool _ => true
  | .null | .arr _ | .obj _ => false

namespace HeaderMapping

open Header

/-- An entry without types, with or without a value. -/
structure Entry where
  id : Json
  family : String
  qualifier : String
  value : Option Json

namespace Entry

/-- The entry stands in the headers of this number. -/
structure StandsAt (e : Entry) (m : Message) (index : Nat) : Prop where
  id : m.header (numbered rowId index) = some e.id
  family : m.header (numbered Header.family index) = some (.str e.family)
  qualifier : m.header (numbered Header.qualifier index) = some (.str e.qualifier)
  value : m.header (numbered Header.value index) = e.value
  rowType : m.header (numbered Header.rowType index) = none
  valueType : m.header (numbered Header.valueType index) = none

/-- The identifier is a scalar, and so is the value if there is one. -/
structure IsScalar (e : Entry) : Prop where
  id : e.id.isScalar = true
  value : ∀ j, e.value = some j → j.isScalar = true

/-- The entry can be put: it has a value, and both this and the identifier, whose text is not empty,
are scalars. -/
structure Storable (e : Entry) : Prop where
  isScalar : e.IsScalar
  value : e.value ≠ none
  key : e.id.text ≠ ""

/-- Where the entry is stored: under which identifier and in which column. -/
def place (e : Entry) : String × String × String := (e.id.text, e.family, e.qualifier)

/-- The entry without its value. -/
def bare (e : Entry) : Entry := { e with value := none }

/-- The entry with the texts of its identifier and of its value. -/
def asText (e : Entry) : Entry :=
  { e with id := .str e.id.text, value := e.value.map fun j => .str j.text }

/-- The cell that is read of the entry. -/
def cell (e : Entry) : Cell where
  family := some e.family
  qualifier := some e.qualifier
  value := e.value.map fun j => .utf8 j.text

/-- The entry as a row. -/
def row (e : Entry) : Row where
  id := some (.utf8 e.id.text)
  cells := [e.cell]

/-- The cell of the entry with the identifier of its row. -/
def keyed (e : Entry) : Option CellValue × Cell := (e.row.id, e.cell)

end Entry

/-- The entries of a message are these, in this order. -/
structure Carries (m : Message) (es : List Entry) : Prop where
  stands : ∀ i (e : Entry), es[i]? = some e → e.StandsAt m (i + 1)
  ends : hasEntry m (es.length + 1) = false

/-! ### Reading -/

theorem valueOf_scalar {j : Json} (h : j.isScalar = true) :
    valueOf none j = .ok (.utf8 j.text) := by
  cases j with
  | null | arr | obj => cases h
  | str | int | float | bool => rfl

namespace Entry.StandsAt

variable {e : Entry} {m : Message} {index : Nat} (h : e.StandsAt m index)
include h

theorem hasEntry_eq : hasEntry m index = true := by
  rw [hasEntry, List.any_cons, Message.hasHeader, h.id]
  rfl

/-- An entry of scalars is read as text. -/
theorem entryRow_eq (hs : e.IsScalar) : entryRow m index = .ok e.row := by
  have hrowType : declaredType m (numbered Header.rowType index) = .ok none := by
    rw [declaredType, Message.headerText, h.rowType]
    rfl
  have hvalueType : declaredType m (numbered Header.valueType index) = .ok none := by
    rw [declaredType, Message.headerText, h.valueType]
    rfl
  have hid : valueAt m (numbered rowId index) none = .ok e.row.id := by
    rw [valueAt, h.id]
    exact map_eq_ok_iff.2 ⟨_, valueOf_scalar hs.id, rfl⟩
  have hvalue : valueAt m (numbered Header.value index) none = .ok e.cell.value := by
    rw [valueAt, h.value, cell]
    cases hj : e.value with
    | none => rfl
    | some j => exact map_eq_ok_iff.2 ⟨_, valueOf_scalar (hs.value j hj), rfl⟩
  have hcells : entryCells m index = .ok [e.cell] := by
    rw [entryCells, Message.headerText, Message.headerText, h.family, h.qualifier]
    show (declaredType m _ >>= fun t => valueAt m _ t >>= fun v => _) = _
    rw [hvalueType]
    show (valueAt m _ none >>= fun v => _) = _
    rw [hvalue]
    rfl
  unfold entryRow
  rw [hrowType]
  show (valueAt m _ none >>= fun id => entryCells m index >>= fun cells => _) = _
  rw [hid, hcells]
  rfl

end Entry.StandsAt

theorem Entry.IsScalar.bare {e : Entry} (h : e.IsScalar) : e.bare.IsScalar where
  id := h.id
  value := by
    intro j hj
    cases hj

/-- Entries grouped by identifier. -/
def group (es : List Entry) : RowBatch := es.foldl (fun batch e => addEntry e.row batch) []

namespace Carries

variable {m : Message} {es : List Entry} (h : Carries m es)
include h

/-- A message that carries entries of scalars is read as their groups. -/
theorem resolve_eq (hs : ∀ e ∈ es, e.IsScalar) : resolve m = .ok (group es) := by
  have hrows : ∀ i (r : Row), (es.map Entry.row)[i]? = some r →
      hasEntry m (i + 1) = true ∧ entryRow m (i + 1) = .ok r := by
    intro i r hr
    rw [List.getElem?_map, Option.map_eq_some_iff] at hr
    obtain ⟨e, he, rfl⟩ := hr
    have hat := h.stands i e he
    exact ⟨hat.hasEntry_eq, hat.entryRow_eq (hs e (List.mem_of_getElem? he))⟩
  have hends : hasEntry m ((es.map Entry.row).length + 1) = false := by
    rw [List.length_map]
    exact h.ends
  rw [resolve_eq_foldl_addEntry hrows hends, List.foldl_map]
  rfl

/-- Entries stand in their own headers and in no others. -/
theorem congr {m' : Message} (hsame : ∀ name ∈ ofEntry, ∀ i, 1 ≤ i →
    m'.headers.get? (numbered name i) = m.headers.get? (numbered name i)) : Carries m' es where
  stands := by
    intro i e he
    have hheader : ∀ name ∈ ofEntry,
        m'.header (numbered name (i + 1)) = m.header (numbered name (i + 1)) := by
      intro name hname
      rw [Message.header, hsame name hname (i + 1) (Nat.le_add_left 1 i)]
      rfl
    have hat := h.stands i e he
    constructor
    · exact (hheader rowId (by decide)).trans hat.id
    · exact (hheader family (by decide)).trans hat.family
    · exact (hheader qualifier (by decide)).trans hat.qualifier
    · exact (hheader value (by decide)).trans hat.value
    · exact (hheader rowType (by decide)).trans hat.rowType
    · exact (hheader valueType (by decide)).trans hat.valueType
  ends := by
    rw [hasEntry_congr fun name hname => hsame name hname _ (Nat.le_add_left 1 es.length)]
    exact h.ends

end Carries

/-! ### Grouping -/

/-- The rows hold exactly these entries, those of one identifier together. -/
structure Groups (batch : RowBatch) (es : List Entry) : Prop where
  perm : (entries batch).Perm (es.map Entry.keyed)
  ids : (batch.map Row.id).Nodup
  rows : ∀ r ∈ batch, r.cells ≠ [] ∧ r.Distinct

section Adding

variable {e : Entry} {batch : RowBatch}

theorem sameId_row {r : Row} : sameId r e.row = true ↔ r.id = e.row.id := by
  rw [sameId_comm, sameId_iff, eq_comm]
  rintro v ⟨⟩
  exact nofun

/-- An entry for a new place is added to the others. -/
theorem perm_entries_addEntry (hnew : ∀ r ∈ batch, r.id = e.row.id → r.hasColumnOf e.cell = false) :
    (entries (addEntry e.row batch)).Perm (entries batch ++ [e.keyed]) := by
  induction batch with
  | nil => exact .refl _
  | cons r rest ih =>
    unfold addEntry
    by_cases hsame : sameId r e.row = true
    · rw [if_pos hsame]
      have hid : r.id = e.row.id := sameId_row.1 hsame
      have hadd : r.addCell e.cell = { r with cells := r.cells ++ [e.cell] } := by
        rw [Row.addCell, hnew r List.mem_cons_self hid]
        rfl
      have hentries : entries (e.row.cells.foldl Row.addCell r :: rest) =
          r.cells.map (fun c => (r.id, c)) ++ ([e.keyed] ++ entries rest) := by
        show (r.addCell e.cell).cells.map (fun c => ((r.addCell e.cell).id, c)) ++ entries rest = _
        rw [hadd, List.map_append, List.append_assoc, hid]
        rfl
      rw [hentries]
      show (_ ++ _ : List _).Perm (r.cells.map (fun c => (r.id, c)) ++ entries rest ++ [e.keyed])
      rw [List.append_assoc]
      exact List.perm_append_comm.append_left _
    · rw [if_neg hsame]
      show (r.cells.map (fun c => (r.id, c)) ++ entries (addEntry e.row rest)).Perm
        (r.cells.map (fun c => (r.id, c)) ++ entries rest ++ [e.keyed])
      rw [List.append_assoc]
      exact (ih fun r' hr' => hnew r' (List.mem_cons_of_mem r hr')).append_left _

/-- The identifier of an entry is new, or it is that of some row. -/
theorem map_id_addEntry :
    (addEntry e.row batch).map Row.id = appendNew (batch.map Row.id) e.row.id := by
  induction batch with
  | nil => rfl
  | cons r rest ih =>
    unfold addEntry
    by_cases hsame : sameId r e.row = true
    · have hid : r.id = e.row.id := sameId_row.1 hsame
      have hjoined : (e.row.cells.foldl Row.addCell r).id = r.id := Row.id_addCell r e.cell
      rw [if_pos hsame, List.map_cons, List.map_cons, hjoined, hid]
      exact (if_pos List.mem_cons_self).symm
    · have hid : e.row.id ≠ r.id := fun h => hsame (sameId_row.2 h.symm)
      rw [if_neg hsame, List.map_cons, List.map_cons, ih, appendNew_cons hid]

theorem Groups.addEntry {es : List Entry} (h : Groups batch es)
    (hplace : e.place ∉ es.map Entry.place) : Groups (addEntry e.row batch) (es ++ [e]) where
  perm := by
    rw [List.map_append]
    refine (perm_entries_addEntry fun r hr hid => ?_).trans (h.perm.append_right _)
    -- A cell of the column in the row of the identifier is that of an earlier entry for the place.
    rw [← Bool.not_eq_true, Row.hasColumnOf, List.any_eq_true]
    rintro ⟨c, hc, hsame⟩
    have hmem : (r.id, c) ∈ entries batch :=
      List.mem_flatMap.2 ⟨r, hr, List.mem_map_of_mem hc⟩
    obtain ⟨e', he', hkeyed⟩ := List.mem_map.1 (h.perm.mem_iff.1 hmem)
    obtain ⟨hid', rfl⟩ := Prod.mk.inj hkeyed
    have hcolumn := Cell.sameColumn_iff.1 hsame
    have heq : e'.place = e.place := by
      have htext := hid'.trans hid
      simp only [Entry.row, Option.some.injEq, CellValue.utf8.injEq] at htext
      simp only [Cell.address, Entry.cell, Prod.mk.injEq, Option.some.injEq] at hcolumn
      rw [Entry.place, htext, hcolumn.1, hcolumn.2]
      rfl
    exact hplace (List.mem_map.2 ⟨e', he', heq⟩)
  ids := by
    rw [map_id_addEntry, nodup_appendNew]
    exact h.ids
  rows := by
    refine forall_addEntry ?_ ⟨List.cons_ne_nil _ _, List.pairwise_singleton _ _⟩ h.rows
    rintro r c ⟨hne, hdistinct⟩
    refine ⟨?_, Row.distinct_addCell.2 hdistinct⟩
    unfold Row.addCell
    split
    · exact hne
    · exact List.append_ne_nil_of_left_ne_nil hne _

end Adding

/-- Entries for different places are all kept when they are grouped. -/
theorem groups_group {es : List Entry} (h : (es.map Entry.place).Nodup) : Groups (group es) es := by
  induction es using List.reverseRecOn with
  | nil => exact ⟨.refl _, .nil, List.forall_mem_nil _⟩
  | append_singleton es e ih =>
    rw [List.map_append, List.nodup_append] at h
    obtain ⟨hearlier, -, hdisjoint⟩ := h
    have hplace : e.place ∉ es.map Entry.place := fun hmem =>
      hdisjoint _ hmem _ (List.mem_singleton_self _) rfl
    have hgroup : group (es ++ [e]) = addEntry e.row (group es) := by
      rw [group, List.foldl_append]
      rfl
    rw [hgroup]
    exact (ih hearlier).addEntry hplace

/-- Values take no part in the grouping. -/
theorem group_bare (es : List Entry) : group (es.map Entry.bare) = (group es).map Row.bare := by
  have hcells : ∀ (r : Row) (c : Cell), r.bare.addCell c.bare = (r.addCell c).bare := by
    intro r c
    have hcolumn : r.bare.hasColumnOf c.bare = r.hasColumnOf c := by
      show (r.cells.map Cell.bare).any _ = _
      rw [List.any_map]
      rfl
    rw [Row.addCell, Row.addCell, hcolumn]
    split
    · rfl
    · simp [Row.bare]
  have hadd : ∀ (batch : RowBatch) (e : Entry),
      addEntry e.bare.row (batch.map Row.bare) = (addEntry e.row batch).map Row.bare := by
    intro batch e
    induction batch with
    | nil => rfl
    | cons r rest ih =>
      have hsame : sameId r.bare e.bare.row = sameId r e.row := rfl
      rw [List.map_cons, addEntry, addEntry, hsame]
      split
      · exact congrArg (· :: _) (hcells r e.cell)
      · rw [ih, List.map_cons]
  rw [group, List.foldl_map]
  show es.foldl (fun batch e => addEntry e.bare.row batch) (([] : RowBatch).map Row.bare) = _
  apply List.foldl_hom
  exact hadd

/-- Storable entries make up rows that can be written and read back. -/
theorem Groups.typed {batch : RowBatch} {es : List Entry} (h : Groups batch es)
    (hes : ∀ e ∈ es, e.Storable) : batch.Typed := by
  have hcell : ∀ r ∈ batch, ∀ c ∈ r.cells,
      ∃ e ∈ es, r.id = some (.utf8 e.id.text) ∧ c = e.cell := by
    intro r hr c hc
    have hmem : (r.id, c) ∈ entries batch :=
      List.mem_flatMap.2 ⟨r, hr, List.mem_map_of_mem hc⟩
    obtain ⟨e, he, hkeyed⟩ := List.mem_map.1 (h.perm.mem_iff.1 hmem)
    obtain ⟨hid, hcell⟩ := Prod.mk.inj hkeyed
    exact ⟨e, he, hid.symm, hcell.symm⟩
  have hkey : ∀ r ∈ batch, ∃ text, text ≠ "" ∧ r.id = some (.utf8 text) := by
    intro r hr
    obtain ⟨c, hc⟩ := List.exists_mem_of_ne_nil r.cells (h.rows r hr).1
    obtain ⟨e, he, hrow, -⟩ := hcell r hr c hc
    exact ⟨e.id.text, (hes e he).key, hrow⟩
  constructor
  · intro r hr
    obtain ⟨text, htext, hrow⟩ := hkey r hr
    refine ⟨⟨.utf8 text, hrow, fun hempty => ?_⟩, (h.rows r hr).1, (h.rows r hr).2, ?_, ?_⟩
    · exact htext (Utf8.encode_injective hempty)
    · intro c hc
      obtain ⟨e, -, -, rfl⟩ := hcell r hr c hc
      exact ⟨e.family, e.qualifier, rfl, rfl⟩
    · intro c hc
      obtain ⟨e, he, -, rfl⟩ := hcell r hr c hc
      obtain ⟨j, hj⟩ := Option.ne_none_iff_exists'.1 (hes e he).value
      exact ⟨.utf8 j.text, .text (by rw [Entry.cell, hj]; rfl) rfl⟩
  · have hids : batch.Pairwise fun r s => r.id ≠ s.id := List.pairwise_map.1 h.ids
    refine hids.imp_of_mem fun hr hs hne key => ?_
    rintro ⟨v, hv, rfl⟩ ⟨w, hw, hencode⟩
    obtain ⟨text, -, hrow⟩ := hkey _ hr
    obtain ⟨text', -, hrow'⟩ := hkey _ hs
    cases hv.symm.trans hrow
    cases hw.symm.trans hrow'
    rw [hrow, hrow', Utf8.encode_injective hencode] at hne
    exact hne rfl

/-! ### Writing -/

theorem header_write {name : String} (hname : name ∈ ofEntry) {batch : RowBatch} {i : Nat}
    {entry : Option CellValue × Cell} (hentry : (entries batch)[i]? = some entry)
    (m : Message) : (HeaderMapping.write batch m).header (numbered name (i + 1)) =
      (((fields entry).lookup name).or (m.headers.get? (numbered name (i + 1)))).filter
        fun j => !j.isNull := by
  rw [Message.header, get?_write hname (Nat.le_add_left 1 i), Nat.add_sub_cancel, hentry,
    Option.bind_some]

/-- A batch with the fields of some entries is written over a message that carries as many: the
message then carries the entries as texts. -/
theorem Carries.write {base : Message} {es es' : List Entry} {rows : RowBatch}
    (hbase : Carries base es') (hlength : es'.length = es.length)
    (hrows : (entries rows).map fields = es.map fun e => fields e.keyed) :
    Carries (HeaderMapping.write rows base) (es.map Entry.asText) where
  stands := by
    intro i e' he'
    rw [List.getElem?_map] at he'
    obtain ⟨e, he, rfl⟩ := Option.map_eq_some_iff.1 he'
    have hfields : ((entries rows)[i]?).map fields = some (fields e.keyed) := by
      rw [← List.getElem?_map, hrows, List.getElem?_map, he]
      rfl
    obtain ⟨entry, hentry, heq⟩ := Option.map_eq_some_iff.1 hfields
    have hwrite : ∀ name ∈ ofEntry, _ := fun name hname => header_write hname hentry base
    rw [heq] at hwrite
    have hlt : i < es'.length := hlength ▸ (List.getElem?_eq_some_iff.1 he).1
    have hold := hbase.stands i _ (List.getElem?_eq_getElem hlt)
    constructor
    · exact hwrite rowId (by decide)
    · exact hwrite family (by decide)
    · exact hwrite qualifier (by decide)
    · rw [hwrite value (by decide)]
      show (some (valueJson e.cell.value)).filter _ = e.value.map fun j => Json.str j.text
      rw [Entry.cell]
      cases e.value <;> rfl
    · exact (hwrite rowType (by decide)).trans hold.rowType
    · exact (hwrite valueType (by decide)).trans hold.valueType
  ends := by
    have hcells : (entries rows).length = es.length := by
      simpa using congrArg List.length hrows
    rw [List.length_map, hasEntry_write (Nat.le_add_left 1 es.length), Nat.add_sub_cancel,
      List.getElem?_eq_none (Nat.le_of_eq hcells), ← hlength]
    exact hbase.ends

end HeaderMapping

end ColumnConnector
