import ColumnConnector.Invocation.Plan
import ColumnConnector.Proofs.Outcomes

/-!
# Batches of rows

The header strategy builds its rows cell by cell, so what holds of every entry and is kept by
`Row.addCell` holds of every row that it reads (`HeaderMapping.forall_resolve`).  The endpoint then
completes each row by its model.
-/

namespace ColumnConnector

theorem Row.id_addCell (r : Row) (c : Cell) : (r.addCell c).id = r.id := by
  unfold addCell
  split <;> rfl

theorem Row.rowType_addCell (r : Row) (c : Cell) : (r.addCell c).rowType = r.rowType := by
  unfold addCell
  split <;> rfl

namespace Row

theorem id_foldl_addCell (r : Row) (cells : List Cell) : (cells.foldl addCell r).id = r.id :=
  List.foldlRecOn (motive := fun r' => r'.id = r.id) cells addCell rfl fun _ h c _ =>
    (id_addCell _ c).trans h

theorem rowType_foldl_addCell (r : Row) (cells : List Cell) :
    (cells.foldl addCell r).rowType = r.rowType :=
  List.foldlRecOn (motive := fun r' => r'.rowType = r.rowType) cells addCell rfl fun _ h c _ =>
    (rowType_addCell _ c).trans h

end Row

namespace HeaderMapping

/-- The parts of an entry, the identifier being read as the type that the entry declares. -/
theorem parts_of_entryRow {m : Message} {index : Nat} {entry : Row}
    (h : entryRow m index = .ok entry) :
    valueAt m (Header.numbered Header.rowId index) entry.rowType = .ok entry.id ∧
      entryCells m index = .ok entry.cells := by
  obtain ⟨rowType, -, h⟩ := bind_eq_ok_iff.1 h
  obtain ⟨id, hid, h⟩ := bind_eq_ok_iff.1 h
  obtain ⟨cells, hcells, h⟩ := bind_eq_ok_iff.1 h
  cases h
  exact ⟨hid, hcells⟩

section Kept

variable {P : Row → Prop} (hcell : ∀ r c, P r → P (r.addCell c))
include hcell

/-- An entry joins the row of its identifier or is a row of its own. -/
theorem forall_addEntry {entry : Row} (hentry : P entry) {batch : RowBatch}
    (hbatch : ∀ r ∈ batch, P r) : ∀ r ∈ addEntry entry batch, P r := by
  induction batch with
  | nil => exact List.forall_mem_singleton.2 hentry
  | cons r rest ih =>
    obtain ⟨hr, hrest⟩ := List.forall_mem_cons.1 hbatch
    unfold addEntry
    split
    · have hjoined : P (entry.cells.foldl Row.addCell r) :=
        List.foldlRecOn entry.cells _ hr fun r hr c _ => hcell r c hr
      exact List.forall_mem_cons.2 ⟨hjoined, hrest⟩
    · exact List.forall_mem_cons.2 ⟨hr, ih hrest⟩

/-- What holds of every entry and is kept when a cell is added holds of every row. -/
theorem forall_resolve {m : Message} {batch : RowBatch} (h : resolve m = .ok batch)
    (hentry : ∀ index entry, entryRow m index = .ok entry → P entry) : ∀ r ∈ batch, P r := by
  unfold resolve at h
  split at h
  · next entries hentries =>
    cases h
    have hall : ∀ entry ∈ entries, P entry := by
      intro entry hmem
      obtain ⟨index, -, hread⟩ := exists_mem_of_forall₂ (mapM_eq_ok_iff.1 hentries).flip hmem
      exact hentry index entry hread
    refine List.foldlRecOn (motive := fun batch => ∀ r ∈ batch, P r) entries _ ?_ ?_
    · exact List.forall_mem_nil _
    · intro batch hbatch entry hmem
      exact forall_addEntry hcell (hall entry hmem) hbatch
  · cases h

end Kept

end HeaderMapping

/-- The batch of a message holds the rows that it carries, each completed by the row model. -/
theorem Endpoint.batchOf_eq_ok_iff {e : Endpoint} {s : Strategy} {m : Message} {batch : RowBatch} :
    e.batchOf s m = .ok batch ↔
      ∃ given, s.resolve m = .ok given ∧ batch = given.map fun r => r.apply e.config.rowModel := by
  rw [batchOf, map_eq_ok_iff]
  simp only [eq_comm]

/-- A plan is laid out of an operation, a strategy and the rows that the strategy reads. -/
theorem Endpoint.plan_eq_ok_of_resolve {e : Endpoint} {m : Message} {op : Operation} {s : Strategy}
    {given : RowBatch} (hop : operationOf m = .ok op) (hchoose : e.registry.choose m = .ok s)
    (hresolve : s.resolve m = .ok given) :
    e.plan m = .ok ⟨op, s, given.map fun r => r.apply e.config.rowModel⟩ := by
  have hbatch : e.batchOf s m = .ok (given.map fun r => r.apply e.config.rowModel) :=
    batchOf_eq_ok_iff.2 ⟨given, hresolve, rfl⟩
  exact bind_eq_ok_iff.2 ⟨op, hop, bind_eq_ok_iff.2 ⟨s, hchoose,
    bind_eq_ok_iff.2 ⟨_, hbatch, rfl⟩⟩⟩

/-- An empty model completes nothing. -/
theorem Row.apply_empty (r : Row) : r.apply {} = r := by
  unfold apply
  rw [Option.or_none]
  rfl

end ColumnConnector
