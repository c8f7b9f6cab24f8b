import ColumnConnector.Proofs.Mapping.Grouping
import ColumnConnector.Proofs.Store.Newest
import ColumnConnector.Proofs.Store.Session

/-!
# Columns of a batch

Rows in headers are put together cell by cell and so come out distinct.  Rows in a body are taken
as they stand, and the row model does not change whether they are distinct
(`Endpoint.batchOf_distinct_iff`).

A row that is not distinct is put all the same: each of the cells of a column becomes a version of
its own, with the last of them in front.
-/

namespace ColumnConnector

/-- Rows that are read from headers are distinct. -/
theorem HeaderMapping.distinct_of_resolve {m : Message} {batch : RowBatch}
    (h : resolve m = .ok batch) : ∀ r ∈ batch, r.Distinct := by
  exact forall_resolve (fun r c hr => Row.distinct_addCell.2 hr) h fun _ _ => distinct_of_entryRow

namespace Store

variable (s : Store) (table : String) (p : Put)

/-- Each cell of a put for different columns is the one version that its column gains. -/
theorem versions_commit_of_nodup (h : (p.cells.map Prod.fst).Nodup) {written : Column × Bytes}
    (hmem : written ∈ p.cells) :
    (s.commit table p).versions table p.row written.1 =
      ((s.clock.next, written.2) :: s.versions table p.row written.1).take s.maxVersions := by
  rw [versions_commit]
  exact View.foldl_prepend_newest _ _ _ _ (List.pairwise_map.1 h) hmem

/-- In general a column gains a version for each of its cells, the last of them in front. -/
theorem versions_commit_eq {column : Column}
    (h : (s.versions table p.row column).length ≤ s.maxVersions) :
    (s.commit table p).versions table p.row column =
      (((p.cells.filter fun written => written.1 = column).map fun written =>
        (s.clock.next, written.2)).reverse ++ s.versions table p.row column).take s.maxVersions := by
  rw [versions_commit]
  exact View.foldl_prepend_take _ _ _ _ _ _ _ (List.take_of_length_le h).symm

end Store

namespace Endpoint

/-- Rows in headers become distinct rows of the batch, and a row in a body one that is distinct
exactly when it was in the body, whatever the row model holds.  A row that is put writes to
different columns exactly when it is distinct.  Then the one version that a column gains is of the
one cell of the column; else it gains a version for each of its cells, the last in front. -/
theorem batchOf_distinct_iff {e : Endpoint} {n : StrategyName} {m : Message} {batch : RowBatch}
    (hbatch : e.batchOf (Registry.builtIn n) m = .ok batch) :
    (n = .header → ∀ r ∈ batch, r.Distinct) ∧
      (∃ given, (Registry.builtIn n).resolve m = .ok given ∧
        List.Forall₂ (fun r completed => completed = r.apply e.config.rowModel ∧
          (completed.Distinct ↔ r.Distinct)) given batch) ∧
      ∀ r ∈ batch, ∀ p, r.toPut = .ok p →
        ((p.cells.map Prod.fst).Nodup ↔ r.Distinct) ∧
        ∀ (s : Store) (table : String),
          (r.Distinct → ∀ written ∈ p.cells,
            (s.commit table p).versions table p.row written.1 =
              ((s.clock.next, written.2) :: s.versions table p.row written.1).take
                s.maxVersions) ∧
          ∀ column, (s.versions table p.row column).length ≤ s.maxVersions →
            (s.commit table p).versions table p.row column =
              (((p.cells.filter fun written => written.1 = column).map fun written =>
                (s.clock.next, written.2)).reverse ++ s.versions table p.row column).take
                  s.maxVersions := by
  obtain ⟨given, hresolve, rfl⟩ := batchOf_eq_ok_iff.1 hbatch
  refine ⟨?_, ⟨given, hresolve, ?_⟩, ?_⟩
  · rintro rfl r hr
    obtain ⟨row, hrow, rfl⟩ := List.mem_map.1 hr
    exact Row.distinct_apply.2 (HeaderMapping.distinct_of_resolve hresolve row hrow)
  · rw [List.forall₂_map_right_iff]
    exact List.forall₂_same.2 fun r _ => ⟨rfl, Row.distinct_apply⟩
  · intro r _ p hput
    have hcolumns := (Row.toPut_eq_ok_iff.1 hput).nodup_iff
    refine ⟨hcolumns, ?_⟩
    intro s table
    refine ⟨?_, ?_⟩
    · intro hdistinct written hmem
      exact s.versions_commit_of_nodup table p (hcolumns.2 hdistinct) hmem
    · intro column hlength
      exact s.versions_commit_eq table p hlength

/-- Two entries of one column make up one cell, that of the first, and a row model that names the
column twice does not add to it. -/
theorem batchOf_distinct_first :
    let c : Cell := { family := some "f", qualifier := some "q" }
    let e : Endpoint := { config := { table := "t", rowModel := {
      cells := [{ c with valueType := some .utf8 }, { c with valueType := some .bytes }] } } }
    let m : Message := { headers := SortedMap.ofList [
      (Header.rowId, .str "r"), (Header.family, .str "f"), (Header.qualifier, .str "q"),
      (Header.value, .str "a"), ("CamelHBaseRowId2", .str "r"), ("CamelHBaseFamily2", .str "f"),
      ("CamelHBaseQualifier2", .str "q"), ("CamelHBaseValue2", .str "b")] }
    ∃ r p, e.batchOf (Registry.builtIn .header) m = .ok [r] ∧ r.toPut = .ok p ∧ r.Distinct ∧
      ((Store.createTable (.keeping 3) "t").commit "t" p).versions "t" [114] ⟨[102], [113]⟩ =
        [(1, [97])] := by
  intro c e m
  let r : Row := {
    id := some (.utf8 "r")
    cells := [{ c with value := some (.utf8 "a"), valueType := some .utf8 }] }
  let p : Put := ⟨[114], [(⟨[102], [113]⟩, [97])]⟩
  have hbatch : e.batchOf (Registry.builtIn .header) m = .ok [r] := by decide +kernel
  have hput : r.toPut = .ok p := by decide +kernel
  obtain ⟨hdistinct, -, hrows⟩ := batchOf_distinct_iff hbatch
  have hr : r.Distinct := hdistinct rfl r List.mem_cons_self
  obtain ⟨-, hstored⟩ := hrows r List.mem_cons_self p hput
  obtain ⟨hone, -⟩ := hstored (Store.createTable (.keeping 3) "t") "t"
  exact ⟨r, p, hbatch, hput, hr, hone hr _ List.mem_cons_self⟩

/-- A row in a body with two cells of one column keeps both, and the second is read first. -/
theorem batchOf_repeated_column :
    let e : Endpoint := { config := { table := "t" } }
    let c : Cell := { family := some "f", qualifier := some "q" }
    let r : Row := { id := some (.utf8 "r"), cells := [
      { c with value := some (.utf8 "a") }, { c with value := some (.utf8 "b") }] }
    let p : Put := ⟨[114], [(⟨[102], [113]⟩, [97]), (⟨[102], [113]⟩, [98])]⟩
    e.batchOf (Registry.builtIn .body) { body := some (RowBatch.toJson [r]) } = .ok [r] ∧
      ¬ r.Distinct ∧ r.toPut = .ok p ∧
      ((Store.createTable (.keeping 3) "t").commit "t" p).versions "t" [114] ⟨[102], [113]⟩ =
        [(1, [98]), (1, [97])] := by
  intro e c r p
  refine ⟨by decide +kernel, ?_, by decide +kernel, by decide +kernel⟩
  unfold Row.Distinct
  decide

end Endpoint

end ColumnConnector
