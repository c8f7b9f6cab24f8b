import ColumnConnector.Proofs.Mapping.Headers
import Mathlib.Data.List.Nodup

/-!
# Headers set once

Writing a batch sets four headers for each cell, in the order of `HeaderMapping.written`.  Their
names tell the part and the number of the cell, so no header is set twice
(`HeaderMapping.nodup_written`), and what was set is there in the end.
-/

namespace ColumnConnector

theorem Message.headers_foldl_setHeader (fields : List (String × Json)) (m : Message) :
    (fields.foldl (fun m f => m.setHeader f.1 f.2) m).headers =
      fields.foldl (fun headers f => headers.insert f.1 f.2) m.headers := by
  induction fields generalizing m with
  | nil => rfl
  | cons f rest ih => exact ih (m.setHeader f.1 f.2)

namespace HeaderMapping

open Header

/-- The headers of the entry of a number under their full names. -/
def fullFields (entry : (Option CellValue × Cell) × Nat) : List (String × Json) :=
  (fields entry.1).map fun f => (numbered f.1 entry.2, f.2)

/-- What is set for a batch, header by header. -/
def written (batch : RowBatch) : List (String × Json) :=
  ((entries batch).zipIdx 1).flatMap fullFields

theorem write_eq_foldl_setHeader (batch : RowBatch) (m : Message) :
    write batch m = (written batch).foldl (fun m f => m.setHeader f.1 f.2) m := by
  rw [written, List.foldl_flatMap]
  rfl

/-- A header of an entry is that of a part under the number of the entry. -/
theorem exists_part_of_mem_fullFields {entry : (Option CellValue × Cell) × Nat} {name : String}
    (h : name ∈ (fullFields entry).map Prod.fst) :
    ∃ part ∈ ofEntry, name = numbered part entry.2 := by
  rw [fullFields, List.map_map] at h
  obtain ⟨f, hf, rfl⟩ := List.mem_map.1 h
  exact ⟨f.1, mem_ofEntry_of_mem_fields hf, rfl⟩

theorem nodup_fullFields {entry : (Option CellValue × Cell) × Nat} (hi : 1 ≤ entry.2) :
    ((fullFields entry).map Prod.fst).Nodup := by
  obtain ⟨hnodup, hparts⟩ := ofEntry_fields entry.1
  rw [List.Nodup, List.pairwise_map] at hnodup
  rw [fullFields, List.map_map, List.Nodup, List.pairwise_map]
  refine hnodup.imp_of_mem fun {f g} hf hg hne heq => hne ?_
  exact ((numbered_inj (plain_of_mem_ofEntry f.1 (hparts f hf))
    (plain_of_mem_ofEntry g.1 (hparts g hg)) hi hi).1 heq).1

/-- No header is set twice. -/
theorem nodup_written (batch : RowBatch) : ((written batch).map Prod.fst).Nodup := by
  have hnumbers : ((entries batch).zipIdx 1).Pairwise fun a b => a.2 ≠ b.2 := by
    rw [← List.pairwise_map (f := Prod.snd) (R := (· ≠ ·)), List.zipIdx_map_snd]
    exact List.nodup_range'
  have hone : ∀ entry ∈ (entries batch).zipIdx 1, 1 ≤ entry.2 := fun entry hentry =>
    List.le_snd_of_mem_zipIdx hentry
  rw [written, List.map_flatMap, List.nodup_flatMap]
  refine ⟨fun entry hentry => nodup_fullFields (hone entry hentry), ?_⟩
  refine hnumbers.imp_of_mem fun {a b} ha hb hne name hname hname' => hne ?_
  obtain ⟨part, hpart, rfl⟩ := exists_part_of_mem_fullFields hname
  obtain ⟨part', hpart', heq⟩ := exists_part_of_mem_fullFields hname'
  exact ((numbered_inj (plain_of_mem_ofEntry part hpart) (plain_of_mem_ofEntry part' hpart')
    (hone a ha) (hone b hb)).1 heq).2

/-- What was set for a cell is not lost to what is set for another. -/
theorem get?_write_of_mem_written {batch : RowBatch} {f : String × Json} (h : f ∈ written batch)
    (m : Message) : (write batch m).headers.get? f.1 = some f.2 := by
  have hnodup := nodup_written batch
  rw [write_eq_foldl_setHeader, Message.headers_foldl_setHeader, SortedMap.get?_foldl_insert hnodup,
    SortedMap.lookup_of_mem hnodup h, Option.some_or]

theorem get?_write_control {name : String} (h : name ∈ control) (batch : RowBatch) (m : Message) :
    (write batch m).headers.get? name = m.headers.get? name := by
  refine get?_write_of_ne (fun part hpart i hi _ heq => ?_) m
  have hparts : ∀ part ∈ parts, part ∈ ofEntry := by decide
  exact numbered_not_mem_control (hparts part hpart) hi (heq ▸ h)

/-- A numbered name of a part of an entry, or of a setting of a model column, tells the part and the
number, and no numbered name of a part of an entry is a header that controls the invocation.  So
writing a batch sets every header once, each still holds in the end what was set for its cell, and
the headers that control the invocation stay as they were. -/
theorem write_sets_apart :
    (∀ names ∈ [ofEntry, ofColumn], ∀ name ∈ names, ∀ name' ∈ names, ∀ i j, 1 ≤ i → 1 ≤ j →
      numbered name i = numbered name' j → name = name' ∧ i = j) ∧
    (∀ name ∈ ofEntry, ∀ i, 1 ≤ i → numbered name i ∉ control) ∧
    ∀ (batch : RowBatch) (m : Message),
      write batch m = (written batch).foldl (fun m f => m.setHeader f.1 f.2) m ∧
      ((written batch).map Prod.fst).Nodup ∧
      (∀ f ∈ written batch, (write batch m).headers.get? f.1 = some f.2) ∧
      ∀ name ∈ control, (write batch m).headers.get? name = m.headers.get? name := by
  refine ⟨?_, fun name hname i hi => numbered_not_mem_control hname hi, fun batch m => ?_⟩
  · intro names hnames name hname name' hname' i j hi hj heq
    have hplain : ∀ name ∈ names, Plain name := by
      simp only [List.mem_cons, List.not_mem_nil, or_false] at hnames
      rcases hnames with rfl | rfl
      · exact plain_of_mem_ofEntry
      · exact plain_of_mem_ofColumn
    exact (numbered_inj (hplain name hname) (hplain name' hname') hi hj).1 heq
  · exact ⟨write_eq_foldl_setHeader batch m, nodup_written batch,
      fun f hf => get?_write_of_mem_written hf m, fun name hname => get?_write_control hname batch m⟩

/-- The name of the value begins that of its type, and still the two are apart under every number.
Of two cells the value of the first is there after that of the second was set. -/
theorem write_sets_apart_two_cells :
    numbered Header.value 12 ≠ numbered Header.valueType 12 ∧
      let c : Cell := { family := some "f", qualifier := some "a", value := some (.utf8 "x") }
      let batch : RowBatch := [{
        id := some (.utf8 "r"), cells := [c, { c with qualifier := some "b", value := none }] }]
      (write batch {}).headers.get? "CamelHBaseValue" = some (.str "x") := by
  obtain ⟨hnames, -, hwrite⟩ := write_sets_apart
  constructor
  · intro heq
    have hsame := (hnames ofEntry (by decide) Header.value (by decide) Header.valueType (by decide)
      12 12 (by decide) (by decide) heq).1
    exact absurd hsame (by decide)
  · intro c batch
    obtain ⟨-, -, hset, -⟩ := hwrite batch {}
    exact hset (numbered Header.value 1, .str "x") (by simp [written, entries, fullFields, fields,
      batch, c, valueJson, CellValue.contentJson])

end HeaderMapping

end ColumnConnector
