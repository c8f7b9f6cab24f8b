import ColumnConnector.Proofs.Store.Versions
import Mathlib.Data.List.Sort

/-!
# What a get answers

The answer to a get is described by the versions of its row: the columns asked for that have
versions stand in ascending order, and each contributes its first versions (`Table.get_holds`).

Store order puts the greater timestamp first.  As long as the timestamps of a column do not ascend
towards the older versions, bringing the cells into store order leaves them where they are; cells
are never lost or added, whatever the timestamps.
-/

namespace ColumnConnector

open Std

/-- A version of a column as a cell of a result. -/
def KeyValue.ofVersion (key : Bytes) (c : Column) (version : Int64 × Bytes) : KeyValue :=
  ⟨key, c.family, c.qualifier, version.1, version.2⟩

/-- A version is told by its column. -/
theorem KeyValue.isOf_ofVersion {key : Bytes} {c d : Column} {v : Int64 × Bytes} :
    (ofVersion key d v).isOf c.family c.qualifier = true ↔ d = c := by
  obtain ⟨f, q⟩ := c
  obtain ⟨f', q'⟩ := d
  simp only [isOf, ofVersion, Bool.and_eq_true, Column.mk.injEq]
  constructor
  · intro h
    exact ⟨of_decide_eq_true h.1, of_decide_eq_true h.2⟩
  · intro h
    exact ⟨decide_eq_true h.1, decide_eq_true h.2⟩

/-- Does the get ask for the column?  It asks for all when it names none. -/
def Get.Asks (g : Get) (c : Column) : Prop := g.columns = [] ∨ c ∈ g.columns

/-- The first `n` versions of some columns of a row, as cells. -/
def View.cells (v : View) (key : Bytes) (n : Nat) (columns : List Column) : List KeyValue :=
  columns.flatMap fun c => ((v key c).take n).map (KeyValue.ofVersion key c)

/-- Ascending columns are known by which of them there are. -/
theorem Column.eq_of_ascending {columns columns' : List Column}
    (h : columns.Pairwise fun c d => compare c d = .lt)
    (h' : columns'.Pairwise fun c d => compare c d = .lt)
    (hmem : ∀ c, c ∈ columns ↔ c ∈ columns') : columns = columns' :=
  SortedMap.eq_of_ascending id h h' hmem

/-! ### Store order -/

namespace StoreResult

instance : TransCmp order := by
  have h : TransCmp (compareLex (compareLex (compareOn KeyValue.family)
      (compareOn KeyValue.qualifier)) fun a b => compareOn KeyValue.timestamp b a) := inferInstance
  exact h

theorem inOrder_trans (a b c : KeyValue) (hab : inOrder a b) (hbc : inOrder b c) : inOrder a c :=
  TransCmp.isLE_trans hab hbc

theorem inOrder_total (a b : KeyValue) : (inOrder a b || inOrder b a) = true := by
  unfold inOrder
  rw [show order b a = (order a b).swap from OrientedCmp.eq_swap]
  cases order a b <;> rfl

theorem pairwise_ofCells (row : Bytes) (cells : List KeyValue) :
    (ofCells row cells).cells.Pairwise fun a b => inOrder a b :=
  List.pairwise_mergeSort inOrder_trans inOrder_total cells

/-- Cells of one column are in order when the first is not older. -/
theorem inOrder_ofVersion (key : Bytes) (c : Column) (v w : Int64 × Bytes) :
    inOrder (.ofVersion key c v) (.ofVersion key c w) = decide (w.1 ≤ v.1) := by
  unfold inOrder order KeyValue.ofVersion
  simp only [ReflOrd.compare_self, Ordering.then]
  rw [Bool.eq_iff_iff, decide_eq_true_iff]
  exact isLE_compare

/-- Cells of an earlier column come first. -/
theorem inOrder_of_lt (key : Bytes) {c d : Column} (h : compare c d = .lt) (v w : Int64 × Bytes) :
    inOrder (.ofVersion key c v) (.ofVersion key d w) = true := by
  have hcmp : (compare c.family d.family).then (compare c.qualifier d.qualifier) = .lt := h
  unfold inOrder order KeyValue.ofVersion
  rw [hcmp]
  rfl

/-- Of two cells in order, the first is not of a later column. -/
theorem isLE_of_inOrder {key : Bytes} {c d : Column} {v w : Int64 × Bytes}
    (h : inOrder (.ofVersion key c v) (.ofVersion key d w) = true) : (compare c d).isLE = true := by
  have hcmp : (compare c.family d.family).then (compare c.qualifier d.qualifier) = compare c d := rfl
  unfold inOrder order KeyValue.ofVersion at h
  rw [hcmp] at h
  cases hcd : compare c d with
  | gt =>
    rw [hcd] at h
    exact h
  | lt | eq => rfl

/-- The result holds these cells of a row, in store order. -/
structure Holds (r : StoreResult) (key : Bytes) (cells : List KeyValue) : Prop where
  perm : r.cells.Perm cells
  ordered : r.cells.Pairwise fun a b => inOrder a b
  exact : cells.Pairwise (fun a b => inOrder a b) → r.cells = cells
  row : cells ≠ [] → r.row = key
  empty_iff : r = .empty ↔ cells = []

theorem holds_empty (key : Bytes) : StoreResult.empty.Holds key [] where
  perm := .nil
  ordered := .nil
  exact := fun _ => rfl
  row := fun h => absurd rfl h
  empty_iff := ⟨fun _ => rfl, fun _ => rfl⟩

theorem holds_ofCells (key : Bytes) {cells : List KeyValue} (hne : cells ≠ []) :
    (ofCells key cells).Holds key cells where
  perm := cells.mergeSort_perm _
  ordered := pairwise_ofCells key cells
  exact := List.mergeSort_of_pairwise
  row := fun _ => rfl
  empty_iff := by
    refine ⟨fun h => absurd ?_ hne, fun h => absurd h hne⟩
    have hnil : cells.mergeSort inOrder = [] := congrArg StoreResult.cells h
    have hlen : (cells.mergeSort inOrder).length = cells.length := cells.length_mergeSort
    rw [hnil] at hlen
    exact List.eq_nil_of_length_eq_zero hlen.symm

end StoreResult

/-! ### The columns of a row -/

/-- Elements without an image may be left out. -/
theorem flatMap_filter_nil {α β : Type} {keep : α → Bool} {f : α → List β}
    (h : ∀ a, keep a = false → f a = []) (l : List α) : (l.filter keep).flatMap f = l.flatMap f := by
  induction l with
  | nil => rfl
  | cons a rest ih =>
    cases ha : keep a with
    | true => rw [List.filter_cons_of_pos ha, List.flatMap_cons, List.flatMap_cons, ih]
    | false => rw [List.filter_cons_of_neg (by simp [ha]), List.flatMap_cons, h a ha, ih]; rfl

namespace RowData

theorem versions_eq_of_mem {data : RowData} {e : Column × Versions} (h : e ∈ data.entries) :
    data.versions e.1 = e.2 := by
  rw [versions, SortedMap.get?_eq_some_iff.2 h]
  rfl

theorem mem_keys_of_versions_ne_nil {data : RowData} {c : Column} (h : data.versions c ≠ []) :
    c ∈ SortedMap.keys data := by
  unfold versions at h
  cases hget : SortedMap.get? data c with
  | none => rw [hget] at h; exact absurd rfl h
  | some vs => exact List.mem_map_of_mem (SortedMap.get?_eq_some_iff.1 hget)

/-- The columns asked for that have versions, in ascending order. -/
def columnsFor (data : RowData) (columns : List Column) : List Column :=
  (SortedMap.keys data).filter fun c =>
    (columns.isEmpty || columns.contains c) && !(data.versions c).isEmpty

theorem columnsFor_ascending (data : RowData) (columns : List Column) :
    (data.columnsFor columns).Pairwise fun c d => compare c d = .lt :=
  (List.pairwise_map.2 data.ascending).filter _

theorem mem_columnsFor {data : RowData} {columns : List Column} {c : Column} :
    c ∈ data.columnsFor columns ↔ (columns = [] ∨ c ∈ columns) ∧ data.versions c ≠ [] := by
  unfold columnsFor
  simp only [List.mem_filter, Bool.and_eq_true, Bool.or_eq_true, List.isEmpty_iff,
    List.contains_iff_mem, Bool.not_eq_true', List.isEmpty_eq_false_iff]
  exact ⟨fun h => h.2, fun h => ⟨mem_keys_of_versions_ne_nil h.2, h⟩⟩

/-- Columns without versions add no cells. -/
theorem project_eq (key : Bytes) (data : RowData) (columns : List Column) (n : Nat) :
    data.project key columns n =
      (data.columnsFor columns).flatMap fun c =>
        ((data.versions c).take n).map (KeyValue.ofVersion key c) := by
  let asked : Column → Bool := fun c => columns.isEmpty || columns.contains c
  let cells : Column → List KeyValue := fun c =>
    ((data.versions c).take n).map (KeyValue.ofVersion key c)
  have hentries : data.project key columns n =
      (data.entries.filter fun e => asked e.1).flatMap fun e => cells e.1 := by
    refine List.flatMap_congr fun e he => ?_
    simp only [cells, versions_eq_of_mem (List.mem_filter.1 he).1]
    rfl
  have hempty : ∀ c, (!(data.versions c).isEmpty) = false → cells c = [] := fun c hc => by
    have hnil : data.versions c = [] := by simpa using hc
    simp [cells, hnil]
  calc data.project key columns n
      = ((SortedMap.keys data).filter asked).flatMap cells := by
        rw [hentries, SortedMap.keys, List.filter_map, List.flatMap_map]
        rfl
    _ = (((SortedMap.keys data).filter asked).filter
          fun c => !(data.versions c).isEmpty).flatMap cells := (flatMap_filter_nil hempty _).symm
    _ = (data.columnsFor columns).flatMap cells := by
        rw [List.filter_filter, columnsFor]
        simp only [asked, Bool.and_comm]

end RowData

/-! ### The answer -/

namespace Table

theorem versions_of_some {t : Table} {key : Bytes} {data : RowData}
    (h : SortedMap.get? t key = some data) : t.versions key = data.versions := by
  funext c
  rw [versions, h]
  rfl

/-- A get is answered by the first versions of the columns it asks for. -/
theorem get_holds (t : Table) (g : Get) :
    ∃ columns : List Column,
      columns.Pairwise (fun c d => compare c d = .lt) ∧
      (∀ c, c ∈ columns ↔ g.Asks c ∧ t.versions g.row c ≠ []) ∧
      (t.get g).Holds g.row (View.cells t.versions g.row g.maxVersions columns) := by
  unfold get
  cases hrow : SortedMap.get? t g.row with
  | none =>
    refine ⟨[], .nil, fun c => ?_, StoreResult.holds_empty g.row⟩
    simp [versions, hrow]
  | some data =>
    have hv := versions_of_some hrow
    refine ⟨data.columnsFor g.columns, data.columnsFor_ascending g.columns, fun c => ?_, ?_⟩
    · rw [hv]
      exact RowData.mem_columnsFor
    · have hcells : View.cells t.versions g.row g.maxVersions (data.columnsFor g.columns) =
          data.project g.row g.columns g.maxVersions := by
        rw [RowData.project_eq, View.cells, hv]
      rw [hcells]
      by_cases hnil : data.project g.row g.columns g.maxVersions = []
      · simpa [hnil] using StoreResult.holds_empty g.row
      · simpa [hnil] using StoreResult.holds_ofCells g.row hnil

end Table

/-- A column with versions shows at least one of them. -/
theorem View.cells_eq_nil_iff {v : View} {key : Bytes} {n : Nat} (hn : 0 < n)
    {columns : List Column} (hv : ∀ c ∈ columns, v key c ≠ []) :
    v.cells key n columns = [] ↔ columns = [] := by
  constructor
  · intro hcells
    refine List.eq_nil_iff_forall_not_mem.2 fun c hc => ?_
    have hnil := List.flatMap_eq_nil_iff.1 hcells c hc
    rw [List.map_eq_nil_iff, List.take_eq_nil_iff] at hnil
    rcases hnil with hzero | hnone
    · omega
    · exact hv c hc hnone
  · intro hcolumns
    rw [hcolumns]
    rfl

/-- Cells of ascending columns are in store order when no column's timestamps ascend. -/
theorem View.cells_ordered {v : View} {key : Bytes} (n : Nat) {columns : List Column}
    (hc : columns.Pairwise fun c d => compare c d = .lt)
    (hv : ∀ c, (v key c).Pairwise fun a b => b.1 ≤ a.1) :
    (v.cells key n columns).Pairwise fun a b => StoreResult.inOrder a b := by
  rw [cells, List.pairwise_flatMap]
  refine ⟨fun c _ => ?_, hc.imp fun hlt x hx y hy => ?_⟩
  · rw [List.pairwise_map]
    refine ((hv c).sublist (List.take_sublist n _)).imp fun h => ?_
    rw [StoreResult.inOrder_ofVersion]
    exact decide_eq_true h
  · obtain ⟨a, -, rfl⟩ := List.mem_map.1 hx
    obtain ⟨b, -, rfl⟩ := List.mem_map.1 hy
    exact StoreResult.inOrder_of_lt key hlt a b

end ColumnConnector
