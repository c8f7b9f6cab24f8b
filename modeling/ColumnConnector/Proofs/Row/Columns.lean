import ColumnConnector.Proofs.Row.ReadBack

/-!
# Columns of a row

A row is distinct when no two of its cells are of one column.  Adding a cell and completing the row
by a model come to the same as far as columns go: a column that is there already stays where it is,
and a new one is appended.  So neither makes a row distinct or takes that away, whatever the model
holds (`Row.distinct_addCell`, `Row.distinct_apply`).

The put of a row writes as many cells to a column as the row has of it.
-/

namespace ColumnConnector

/-- A value at the end of a list, unless it is in the list already. -/
def appendNew {α : Type} [DecidableEq α] (l : List α) (a : α) : List α :=
  if a ∈ l then l else l ++ [a]

theorem nodup_appendNew {α : Type} [DecidableEq α] {l : List α} {a : α} :
    (appendNew l a).Nodup ↔ l.Nodup := by
  unfold appendNew
  split
  · rfl
  · next hnew =>
    rw [← List.concat_eq_append, List.nodup_concat]
    exact and_iff_right hnew

theorem appendNew_cons {α : Type} [DecidableEq α] {l : List α} {a b : α} (h : a ≠ b) :
    appendNew (b :: l) a = b :: appendNew l a := by
  by_cases ha : a ∈ l <;> simp [appendNew, h, ha]

/-- The two parts of the column of a cell, either of which may be missing. -/
def Cell.address (c : Cell) : Option String × Option String := (c.family, c.qualifier)

theorem Cell.sameColumn_iff {c d : Cell} : c.sameColumn d = true ↔ c.address = d.address := by
  simp [sameColumn, address]

namespace Row

/-- No two cells of the row are of one column. -/
def Distinct (r : Row) : Prop := r.cells.Pairwise fun c d => c.sameColumn d = false

theorem distinct_iff_nodup {r : Row} : r.Distinct ↔ (r.cells.map Cell.address).Nodup := by
  simp only [Distinct, List.Nodup, List.pairwise_map, ne_eq, ← Cell.sameColumn_iff,
    Bool.not_eq_true]

theorem hasColumnOf_iff {r : Row} {c : Cell} :
    r.hasColumnOf c = true ↔ c.address ∈ r.cells.map Cell.address := by
  simp [hasColumnOf, Cell.sameColumn_iff]

/-- A cell of a column that is there already is left out, any other is appended. -/
theorem map_address_addCell (r : Row) (c : Cell) :
    (r.addCell c).cells.map Cell.address = appendNew (r.cells.map Cell.address) c.address := by
  unfold addCell appendNew
  by_cases h : c.address ∈ r.cells.map Cell.address
  · rw [if_pos h, if_pos (hasColumnOf_iff.2 h)]
  · rw [if_neg h, if_neg (mt hasColumnOf_iff.1 h), List.map_append]
    rfl

theorem hasColumnOf_self {r : Row} {c : Cell} (h : c ∈ r.cells) : r.hasColumnOf c = true :=
  hasColumnOf_iff.2 (List.mem_map_of_mem h)

theorem hasColumnOf_addCell (r : Row) (c d : Cell) :
    (r.addCell c).hasColumnOf d = true ↔ r.hasColumnOf d = true ∨ d.address = c.address := by
  rw [hasColumnOf_iff, map_address_addCell, hasColumnOf_iff, appendNew]
  split
  · next h =>
    constructor
    · exact .inl
    · rintro (hd | hd)
      · exact hd
      · rw [hd]
        exact h
  · rw [List.mem_append, List.mem_singleton]

theorem hasColumnOf_foldl_addCell (r : Row) (cells : List Cell) (d : Cell) :
    (cells.foldl addCell r).hasColumnOf d = true ↔
      r.hasColumnOf d = true ∨ d.address ∈ cells.map Cell.address := by
  induction cells generalizing r with
  | nil => simp
  | cons c rest ih =>
    rw [List.foldl_cons, ih, hasColumnOf_addCell, List.map_cons, List.mem_cons, or_assoc]

/-- A cell that is added is of a column that the row lacks. -/
theorem mem_foldl_addCell {r : Row} {cells : List Cell} {c : Cell}
    (h : c ∈ (cells.foldl addCell r).cells) :
    c ∈ r.cells ∨ c ∈ cells ∧ r.hasColumnOf c = false := by
  induction cells generalizing r with
  | nil => exact .inl h
  | cons d rest ih =>
    rw [List.foldl_cons] at h
    rcases ih h with hadd | ⟨hrest, hnew⟩
    · unfold addCell at hadd
      split at hadd
      · exact .inl hadd
      · next hd =>
        rcases List.mem_append.1 hadd with hr | hlast
        · exact .inl hr
        · rw [List.mem_singleton.1 hlast]
          exact .inr ⟨List.mem_cons_self, Bool.not_eq_true _ ▸ hd⟩
    · refine .inr ⟨List.mem_cons_of_mem d hrest, ?_⟩
      rw [← Bool.not_eq_true, hasColumnOf_addCell, not_or, Bool.not_eq_true] at hnew
      exact hnew.1

/-- A model cell completes a cell of its column or is appended; the columns do not tell which. -/
theorem map_address_mergeCell (model : Cell) (cells : List Cell) :
    (mergeCell model cells).map Cell.address =
      appendNew (cells.map Cell.address) model.address := by
  induction cells with
  | nil => rfl
  | cons c rest ih =>
    unfold mergeCell
    by_cases h : c.address = model.address
    · rw [if_pos (Cell.sameColumn_iff.2 h), List.map_cons, List.map_cons, ← h]
      exact (if_pos List.mem_cons_self).symm
    · rw [if_neg (mt Cell.sameColumn_iff.1 h), List.map_cons, List.map_cons, ih,
        appendNew_cons (Ne.symm h)]

/-- A row is distinct after a cell is added when it was before. -/
theorem distinct_addCell {r : Row} {c : Cell} : (r.addCell c).Distinct ↔ r.Distinct := by
  rw [distinct_iff_nodup, map_address_addCell, nodup_appendNew, distinct_iff_nodup]

theorem distinct_foldl_addCell {r : Row} (h : r.Distinct) (cells : List Cell) :
    (cells.foldl addCell r).Distinct :=
  List.foldlRecOn (motive := Distinct) cells addCell h fun _ h _ _ => distinct_addCell.2 h

/-- A row is distinct after it is completed when it was before. -/
theorem distinct_apply {r model : Row} : (r.apply model).Distinct ↔ r.Distinct := by
  have hmerged : ∀ cells : List Cell,
      ((model.cells.foldl (fun cells m => mergeCell m cells) cells).map Cell.address).Nodup ↔
        (cells.map Cell.address).Nodup := by
    induction model.cells with
    | nil => simp
    | cons m rest ih =>
      intro cells
      rw [List.foldl_cons, ih, map_address_mergeCell, nodup_appendNew]
  rw [distinct_iff_nodup, distinct_iff_nodup]
  exact hmerged r.cells

end Row

/-! ### What is written -/

/-- Cells that are written to different columns are of different columns. -/
theorem Cell.Writes.sameColumn_eq_false {c d : Cell} {written written' : Column × Bytes}
    (hc : c.Writes written) (hd : d.Writes written') (h : written.1 ≠ written'.1) :
    c.sameColumn d = false := by
  rw [← Bool.not_eq_true, sameColumn_iff]
  intro haddress
  obtain ⟨f, q, hf, hq, hcolumn⟩ := hc.column
  obtain ⟨f', q', hf', hq', hcolumn'⟩ := hd.column
  rw [address, address, hf, hq, hf', hq'] at haddress
  cases haddress
  exact h (hcolumn.trans hcolumn'.symm)

/-- The put of a row writes to different columns when the row is distinct. -/
theorem Row.Writes.nodup_iff {r : Row} {p : Put} (h : r.Writes p) :
    (p.cells.map Prod.fst).Nodup ↔ r.Distinct := by
  rw [List.Nodup, List.pairwise_map]
  constructor
  · intro hp
    apply pairwise_of_forall₂ h.cells.flip hp
    intro written written' c d hc hd hne
    exact Cell.Writes.sameColumn_eq_false hc hd hne
  · intro hr
    apply pairwise_of_forall₂ h.cells hr
    intro c d written written' hc hd hcd
    exact hc.column_ne hd hcd

end ColumnConnector
