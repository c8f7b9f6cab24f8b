import ColumnConnector.Proofs.Row.ReadBack
import ColumnConnector.Proofs.Store.Scanning

/-!
# Scanning by example

A template that matches columns compares each of them with the stored form of the value that stands
in the row.  A put takes the value as one of the declared type first and writes the stored form of
that.  The two forms agree for a value of its own type, and a row is then found by itself; they need
not agree for a value that was converted.
-/

namespace ColumnConnector

/-- Cells as a put leaves them: one version of each cell, of any time, in any order. -/
def Put.Leaves (p : Put) (cells : List KeyValue) : Prop :=
  ∃ versions, cells.Perm versions ∧
    List.Forall₂ (fun written kv => ∃ time, kv = .ofVersion p.row written.1 (time, written.2))
      p.cells versions

/-- A cell that is put is the latest of its column, if no other cell of the put is of the column. -/
theorem Put.Leaves.latest {p : Put} {cells : List KeyValue} (h : p.Leaves cells)
    (hdistinct : p.cells.Pairwise fun a b => a.1 ≠ b.1) {written : Column × Bytes}
    (hmem : written ∈ p.cells) :
    ∃ time, KeyValue.latest (cells.filter (·.isOf written.1.family written.1.qualifier)) =
      some (.ofVersion p.row written.1 (time, written.2)) := by
  obtain ⟨versions, hperm, h⟩ := h
  obtain ⟨own, hown, time, rfl⟩ := exists_mem_of_forall₂ h hmem
  have hfiltered := List.mem_filter.2 ⟨hperm.mem_iff.2 hown, KeyValue.isOf_ofVersion.2 rfl⟩
  obtain ⟨kv, hkv, hlatest⟩ := KeyValue.exists_latest (List.ne_nil_of_mem hfiltered)
  obtain ⟨hin, hof⟩ := List.mem_filter.1 hkv
  obtain ⟨other, hother, time', rfl⟩ := exists_mem_of_forall₂ h.flip (hperm.mem_iff.1 hin)
  have hnodup : (p.cells.map Prod.fst).Nodup := List.pairwise_map.2 hdistinct
  have hsame : other = written :=
    List.inj_on_of_nodup_map hnodup hother hmem (KeyValue.isOf_ofVersion.1 hof)
  rw [hsame] at hlatest
  exact ⟨time', hlatest⟩

namespace Filter

theorem accepts_all_iff {key : Bytes} {cells : List KeyValue} {filters : List Filter} :
    (all filters).accepts key cells = true ↔ ∀ f ∈ filters, f.accepts key cells = true := by
  rw [accepts, acceptsAll_eq_all, List.all_eq_true]

/-- A row passes a test for equality when the newest value of the column is the operand, or when
there is none. -/
theorem accepts_columnValue_equal_iff {key family qualifier operand : Bytes}
    {cells : List KeyValue} :
    (columnValue family qualifier .equal operand).accepts key cells = true ↔
      ∀ kv, KeyValue.latest (cells.filter (·.isOf family qualifier)) = some kv →
        kv.value = operand := by
  rw [columnValue, accepts]
  cases KeyValue.latest (cells.filter (·.isOf family qualifier)) with
  | none => simp
  | some kv => simp [CompareOp.accepts]

end Filter

namespace FilterTemplate

theorem cellTest?_eq_some_iff {c : Cell} {test : Filter} :
    cellTest? c = some test ↔ ∃ family qualifier v, c.family = some family ∧
      c.qualifier = some qualifier ∧ c.value = some v ∧
      test = .columnValue (Utf8.encode family) (Utf8.encode qualifier) .equal v.encode := by
  cases hfamily : c.family <;> cases hqualifier : c.qualifier <;> cases hvalue : c.value <;>
    simp [cellTest?, Cell.column?, hfamily, hqualifier, hvalue, eq_comm]

theorem cellTest?_eq {c : Cell} {v : CellValue} {column : Column} (hcolumn : c.column = .ok column)
    (hvalue : c.value = some v) :
    cellTest? c = some (.columnValue column.family column.qualifier .equal v.encode) := by
  obtain ⟨family, qualifier, hfamily, hqualifier, rfl⟩ := Cell.column_eq_ok_iff.1 hcolumn
  exact cellTest?_eq_some_iff.2 ⟨family, qualifier, v, hfamily, hqualifier, hvalue, rfl⟩

theorem value_of_cellTest? {c : Cell} {test : Filter} (h : cellTest? c = some test) :
    ∃ v, c.value = some v := by
  obtain ⟨_, _, v, -, -, hvalue, -⟩ := cellTest?_eq_some_iff.1 h
  exact ⟨v, hvalue⟩

/-- The filter bound to a row passes the cells that the put of the row leaves exactly when every
value is stored in its own form, so that taking it as one of the declared type changes nothing.
This holds of values without a declared type, of values of the type declared, and of values
declared as bytes. -/
theorem columnMatching_accepts_put_iff {r : Row} {p : Put} {cells : List KeyValue}
    (hdistinct : r.cells.Pairwise fun c d => c.sameColumn d = false) (hput : r.toPut = .ok p)
    (hcells : p.Leaves cells) :
    ∃ bind filter, columnMatching.binding? = some bind ∧ bind r = .ok filter ∧
      (filter.accepts p.row cells = true ↔
        ∀ c ∈ r.cells, ∀ v t w, c.value = some v → c.valueType = some t → v.coerce t = .ok w →
          w.encode = v.encode) ∧
      ((∀ c ∈ r.cells, ∀ v t, c.value = some v → c.valueType = some t → t = v.type ∨ t = .bytes) →
        filter.accepts p.row cells = true) := by
  have hwrites := Row.toPut_eq_ok_iff.1 hput
  have hcolumns : p.cells.Pairwise fun a b => a.1 ≠ b.1 := by
    apply pairwise_of_forall₂ hwrites.cells hdistinct
    intro c d written written' hc hd hcd
    exact hc.column_ne hd hcd
  -- What the test of a cell comes to: its column was put, and is compared with the plain form.
  have htest : ∀ c ∈ r.cells, ∀ v, c.value = some v →
      ∃ test raw, cellTest? c = some test ∧ c.Stores raw ∧
        (test.accepts p.row cells = true ↔ raw = v.encode) := by
    intro c hc v hvalue
    obtain ⟨written, hmem, hw⟩ := exists_mem_of_forall₂ hwrites.cells hc
    obtain ⟨time, hlatest⟩ := hcells.latest hcolumns hmem
    refine ⟨_, written.2, cellTest?_eq (Cell.column_eq_ok_iff.2 hw.column) hvalue, hw.stored, ?_⟩
    rw [Filter.accepts_columnValue_equal_iff, hlatest]
    simp [KeyValue.ofVersion]
  have haccepts : (Filter.all (r.cells.filterMap cellTest?)).accepts p.row cells = true ↔
      ∀ c ∈ r.cells, ∀ v t w, c.value = some v → c.valueType = some t → v.coerce t = .ok w →
        w.encode = v.encode := by
    rw [Filter.accepts_all_iff]
    constructor
    · intro h c hc v t w hvalue htype hcoerce
      obtain ⟨test, raw, hsome, hstores, hiff⟩ := htest c hc v hvalue
      have hraw := hiff.1 (h test (List.mem_filterMap.2 ⟨c, hc, hsome⟩))
      rw [← hraw]
      exact (Cell.Stores.declared hvalue htype hcoerce).unique hstores
    · intro h test hmem
      obtain ⟨c, hc, hsome⟩ := List.mem_filterMap.1 hmem
      obtain ⟨v, hvalue⟩ := value_of_cellTest? hsome
      obtain ⟨test', raw, hsome', hstores, hiff⟩ := htest c hc v hvalue
      cases hsome.symm.trans hsome'
      apply hiff.2
      cases hstores with
      | null hnone =>
        rw [hvalue] at hnone
        cases hnone
      | plain hvalue' _ =>
        cases hvalue.symm.trans hvalue'
        rfl
      | declared hvalue' htype hcoerce =>
        cases hvalue.symm.trans hvalue'
        exact h c hc _ _ _ hvalue htype hcoerce
  refine ⟨_, _, rfl, rfl, haccepts, ?_⟩
  intro hown
  apply haccepts.2
  intro c hc v t w hvalue htype hcoerce
  rcases hown c hc v t hvalue htype with rfl | rfl
  · have hsame : v.coerce v.type = .ok v := by
      unfold CellValue.coerce
      exact if_pos rfl
    cases hsame.symm.trans hcoerce
    rfl
  · cases v <;> cases hcoerce <;> rfl

/-- A text in a column of texts is found, and so is a truth value in a column of bytes. -/
theorem columnMatching_accepts_put_bytes :
    let r : Row := { id := some (.utf8 "r"), cells := [
      { family := some "f", qualifier := some "a", value := some (.utf8 "x"),
        valueType := some .utf8 },
      { family := some "f", qualifier := some "b", value := some (.bool true),
        valueType := some .bytes }] }
    let cells : List KeyValue := [⟨[114], [102], [97], 7, [120]⟩, ⟨[114], [102], [98], 5, [255]⟩]
    ∃ bind filter, columnMatching.binding? = some bind ∧ bind r = .ok filter ∧
      filter.accepts [114] cells = true := by
  intro r cells
  have hdistinct : r.cells.Pairwise fun c d => c.sameColumn d = false := by decide
  have hput : r.toPut = .ok ⟨[114], [(⟨[102], [97]⟩, [120]), (⟨[102], [98]⟩, [255])]⟩ := rfl
  have hcells : Put.Leaves ⟨[114], [(⟨[102], [97]⟩, [120]), (⟨[102], [98]⟩, [255])]⟩ cells :=
    ⟨cells, .refl _, .cons ⟨7, rfl⟩ (.cons ⟨5, rfl⟩ .nil)⟩
  obtain ⟨bind, filter, hbind, hfilter, -, haccepts⟩ :=
    columnMatching_accepts_put_iff hdistinct hput hcells
  refine ⟨bind, filter, hbind, hfilter, haccepts ?_⟩
  intro c hc v t hvalue htype
  rcases List.mem_cons.1 hc with rfl | hc
  · cases hvalue
    cases htype
    exact .inl rfl
  · rw [List.mem_singleton.1 hc] at hvalue htype
    cases hvalue
    cases htype
    exact .inr rfl

/-- A text in a column of whole numbers is put as a number and not found by its text. -/
theorem columnMatching_rejects_put_int64 :
    let r : Row := { id := some (.utf8 "r"), cells := [
      { family := some "f", qualifier := some "n", value := some (.utf8 "42"),
        valueType := some .int64 }] }
    ∃ p cells bind filter, r.cells.Pairwise (fun c d => c.sameColumn d = false) ∧
      r.toPut = .ok p ∧ p.Leaves cells ∧ columnMatching.binding? = some bind ∧
      bind r = .ok filter ∧ filter.accepts p.row cells = false := by
  intro r
  let p : Put := ⟨[114], [(⟨[102], [110]⟩, [0, 0, 0, 0, 0, 0, 0, 42])]⟩
  let cells : List KeyValue := [⟨[114], [102], [110], 1, [0, 0, 0, 0, 0, 0, 0, 42]⟩]
  have hput : r.toPut = .ok p := rfl
  have hcells : p.Leaves cells := ⟨cells, .refl _, .cons ⟨1, rfl⟩ .nil⟩
  exact ⟨p, cells, _, _, List.pairwise_singleton _ _, hput, hcells, rfl, rfl, by decide +kernel⟩

end FilterTemplate

end ColumnConnector
