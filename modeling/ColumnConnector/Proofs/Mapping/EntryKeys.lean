import ColumnConnector.Proofs.Mapping.FirstGap

/-!
# Where an entry comes to stand

An entry of a message that is read comes to stand in the row of the first entry of its identifier
(`HeaderMapping.resolve_places_entry`).  Rows are stored under the bytes of their identifiers, and for
identifiers that are the same these are equal but in one case: the two zeros among the doubles are
the same number and have different bytes.  An entry for the one that comes after an entry for the
other is therefore stored under a key that is not its own.
-/

namespace ColumnConnector.HeaderMapping

open Header

section Standing

variable {m : Message} {n first i : Nat} {r e : Row} (h : Gathers m n first r)
  (hjoins : Joins m n first r i e)
include h hjoins

/-- The column of an entry is there in its row. -/
theorem Gathers.exists_column {f q : String} (hf : m.headerText (numbered family i) = some f)
    (hq : m.headerText (numbered qualifier i) = some q) :
    ∃ c ∈ r.cells, c.column? = some (f, q) := by
  have haddress := map_address_of_entryRow hjoins.entry.read
  rw [hf, hq] at haddress
  obtain ⟨c, hc, hcolumn⟩ : ∃ c ∈ e.cells, c.address = (some f, some q) := by
    rw [← List.mem_map, haddress]
    exact List.mem_singleton_self _
  have hhas := h.complete i e hjoins c hc
  rw [Row.hasColumnOf_iff, hcolumn, List.mem_map] at hhas
  obtain ⟨c', hc', hcolumn'⟩ := hhas
  obtain ⟨hfamily, hqualifier⟩ := Prod.mk.inj hcolumn'
  exact ⟨c', hc', by rw [Cell.column?, hfamily, hqualifier]⟩

/-- The row has the identifier of the entry itself, or one that is the same. -/
theorem Gathers.exists_id {v : CellValue} (hv : e.id = some v) :
    ∃ w, r.id = some w ∧ (first = i ∧ w = v ∨ w.same v = true) := by
  rcases hjoins.belongs with rfl | hsame
  · obtain ⟨d, hd, hid, -⟩ := h.founder
    have hde : d = e := Except.ok.inj (hd.read.symm.trans hjoins.entry.read)
    exact ⟨v, hid.trans (hde ▸ hv), .inl ⟨rfl, rfl⟩⟩
  · unfold sameId at hsame
    rw [hv] at hsame
    cases hw : r.id with
    | none =>
      rw [hw] at hsame
      cases hsame
    | some w =>
      rw [hw] at hsame
      exact ⟨w, rfl, .inr hsame⟩

/-- The row does not begin after the entry, nor after another one of its identifier. -/
theorem Gathers.first_le : first ≤ i ∧
    ∀ k d, 1 ≤ k → k < first → entryRow m k = .ok d → sameId d e = false := by
  constructor
  · rcases hjoins.belongs with rfl | hsame
    · exact Nat.le_refl _
    · refine Nat.le_of_not_lt fun hlt => ?_
      have hother := h.isFirst i e hjoins.entry hlt
      rw [sameId_comm, hsame] at hother
      cases hother
  · intro k d hk hlt hd
    obtain ⟨f, hf, -⟩ := h.founder
    have hother := h.isFirst k d ⟨hk, Nat.lt_trans hlt hf.lt, hd⟩ hlt
    rw [← Bool.not_eq_true]
    intro hsame
    have hrow := h.sameId_of_joins hjoins (sameId_comm d e ▸ hsame)
    rw [sameId_comm, hrow] at hother
    cases hother

end Standing

/-- An entry before the first gap stands in a row with its column.  The identifier of the row is that
of the first entry whose identifier is the same, or the entry's own.  The keys of the two are equal
exactly when the identifiers are, and where these differ they are the two zeros. -/
theorem resolve_places_entry {m : Message} {batch : RowBatch} (h : resolve m = .ok batch) {i : Nat}
    (hi : 1 ≤ i) (hentry : ∀ j, 1 ≤ j → j ≤ i → hasEntry m j = true) {e : Row}
    (he : entryRow m i = .ok e) {v : CellValue} (hv : e.id = some v) {f q : String}
    (hf : m.headerText (numbered family i) = some f)
    (hq : m.headerText (numbered qualifier i) = some q) :
    ∃ r ∈ batch, ∃ w, r.id = some w ∧ (∃ c ∈ r.cells, c.column? = some (f, q)) ∧
      (∃ j d, 1 ≤ j ∧ j ≤ i ∧ entryRow m j = .ok d ∧ d.id = some w ∧ (j = i ∨ w.same v = true) ∧
        ∀ k d', 1 ≤ k → k < j → entryRow m k = .ok d' → sameId d' e = false) ∧
      (w.encode = v.encode ↔ w = v) ∧ (w ≠ v → w.IsZero ∧ v.IsZero) := by
  obtain ⟨n, hgap, -⟩ := exists_firstGap m
  have hin : i < n := by
    refine Nat.lt_of_not_le fun hle => ?_
    have hnone := hgap.gap
    rw [hentry n hgap.one_le hle] at hnone
    cases hnone
  obtain ⟨rows, rfl, hrows⟩ := exists_grouped hgap h
  obtain ⟨p, hp, hjoins⟩ := hrows.complete i e ⟨hi, hin, he⟩
  have hgathers := hrows.gathers p hp
  obtain ⟨d, hd, hid, -⟩ := hgathers.founder
  obtain ⟨w, hw, hsame⟩ := hgathers.exists_id hjoins hv
  obtain ⟨hle, hfirst⟩ := hgathers.first_le hjoins
  refine ⟨p.2, List.mem_map_of_mem hp, w, hw, hgathers.exists_column hjoins hf hq, ?_, ?_, ?_⟩
  · exact ⟨p.1, d, hd.one_le, hle, hd.read, hid.symm.trans hw, hsame.imp_left And.left, hfirst⟩
  · rcases hsame with ⟨-, rfl⟩ | hsame
    · exact iff_of_true rfl rfl
    · exact CellValue.encode_eq_iff_of_same hsame
  · intro hne
    rcases hsame with ⟨-, rfl⟩ | hsame
    · exact absurd rfl hne
    · exact CellValue.isZero_of_same hsame hne

/-- The third entry, whose identifier has another text than that of the first but is the same number,
comes to stand in the row of the first. -/
theorem resolve_places_entry_third :
    let m : Message := { headers := ⟨[
      (numbered family 1, .str "f"), (numbered family 2, .str "f"), (numbered family 3, .str "f"),
      (numbered qualifier 1, .str "a"), (numbered qualifier 2, .str "a"),
      (numbered qualifier 3, .str "b"), (numbered rowId 1, .str "7"), (numbered rowId 2, .str "8"),
      (numbered rowId 3, .str "+7"), (numbered rowType 1, .str "int32"),
      (numbered rowType 3, .str "int32")], by decide +kernel⟩ }
    ∃ batch r, resolve m = .ok batch ∧ batch.length = 2 ∧ r ∈ batch ∧
      r.id = some (.int32 7) ∧ ∃ c ∈ r.cells, c.column? = some ("f", "b") := by
  intro m
  let e : Row := {
    id := some (.int32 7)
    rowType := some .int32
    cells := [{ family := some "f", qualifier := some "b" }] }
  let batch : RowBatch := [
    { e with cells := [
      { family := some "f", qualifier := some "a" }, { family := some "f", qualifier := some "b" }] },
    { id := some (.utf8 "8"), cells := [{ family := some "f", qualifier := some "a" }] }]
  have hresolve : resolve m = .ok batch := by decide +kernel
  have hentry : ∀ j, 1 ≤ j → j ≤ 3 → hasEntry m j = true := by
    intro j hj hle
    have hall : ∀ i ∈ List.range' 1 3, hasEntry m i = true := by decide +kernel
    exact hall j (List.mem_range'_1.2 ⟨hj, by omega⟩)
  obtain ⟨r, hr, w, hw, hcell, -, -, hzero⟩ := resolve_places_entry hresolve (by decide) hentry
    (show entryRow m 3 = .ok e by decide +kernel) rfl
    (show m.headerText (numbered family 3) = some "f" by decide +kernel)
    (show m.headerText (numbered qualifier 3) = some "b" by decide +kernel)
  -- Whole numbers are no zeros among the doubles, so the identifier is the one of the entry.
  have hsame : w = .int32 7 := by
    by_contra hne
    obtain ⟨-, x, hx, -⟩ := hzero hne
    cases hx
  exact ⟨batch, r, hresolve, rfl, hr, hsame ▸ hw, hcell⟩

/-- An entry for the negative zero comes to stand in the row of the positive one, and no row has its
key. -/
theorem resolve_misplaces_negative_zero :
    let m : Message := { headers := ⟨[
      (numbered family 1, .str "f"), (numbered family 2, .str "f"),
      (numbered qualifier 1, .str "a"), (numbered qualifier 2, .str "b"),
      (numbered rowId 1, .str "0"), (numbered rowId 2, .str "-0"),
      (numbered rowType 1, .str "float64"), (numbered rowType 2, .str "float64")],
      by decide +kernel⟩ }
    ∃ batch e v, resolve m = .ok batch ∧ (∀ j, 1 ≤ j → j ≤ 2 → hasEntry m j = true) ∧
      entryRow m 2 = .ok e ∧ e.id = some v ∧
      m.headerText (numbered family 2) = some "f" ∧ m.headerText (numbered qualifier 2) = some "b" ∧
      ¬ ∃ r ∈ batch, r.id.map CellValue.encode = some v.encode := by
  intro m
  let c (q : String) : Cell := { family := some "f", qualifier := some q }
  let v : CellValue := .float64 ⟨0x8000000000000000⟩
  let r : Row := {
    id := some (.float64 ⟨0⟩)
    rowType := some .float64
    cells := [c "a", c "b"] }
  refine ⟨[r], { id := some v, rowType := some .float64, cells := [c "b"] }, v, by decide +kernel, ?_,
    by decide +kernel, rfl, by decide +kernel, by decide +kernel, by decide +kernel⟩
  intro j hj hle
  have hall : ∀ i ∈ List.range' 1 2, hasEntry m i = true := by decide +kernel
  exact hall j (List.mem_range'_1.2 ⟨hj, by omega⟩)

end ColumnConnector.HeaderMapping
