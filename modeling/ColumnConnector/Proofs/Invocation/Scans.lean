import ColumnConnector.Proofs.Invocation.Effects
import ColumnConnector.Proofs.Row.Scanning

/-!
# Scans

A scan by a template binds the filters of the endpoint to it and then shows the first of the rows
that qualify, up to its bound.  It fails when a filter cannot be bound or when one of these rows is
unreadable; rows beyond the bound are not looked at.
-/

namespace ColumnConnector

namespace Row

theorem toScan_eq (templates : List FilterTemplate) (start : Option String) (r : Row) :
    r.toScan templates start = r.scanFrom start <$> FilterTemplate.bindAll templates r := by
  rw [toScan]
  cases FilterTemplate.bindAll templates r <;> rfl

variable {r : Row} {s : Store} {h : Handle} {templates : List FilterTemplate}
  {start : Option String} {bound : Nat}

/-- The rows that a scan shows, once its filters are bound. -/
theorem scanned_of_bound {filter : Option Filter}
    (hbind : FilterTemplate.bindAll templates r = .ok filter) :
    r.scanned s h templates start bound =
      ((r.qualifying start filter (s.table h.table)).take bound).mapM fun row =>
        (r.ofScan ⟨row.1, r.newestOf row⟩).mapError .conversion := by
  have hscan : s.scan h (r.scanFrom start filter) = _ :=
    r.scan_scanFrom start filter (s.table h.table)
  rw [scanned, toScan_eq, hbind]
  show ((s.scan h (r.scanFrom start filter)).take bound).mapM
    (fun found => (r.ofScan found).mapError ConnectorError.conversion) = _
  rw [hscan, ← List.map_take, List.mapM_map]
  rfl

theorem scanned_of_unbound {e : ConversionError}
    (hbind : FilterTemplate.bindAll templates r = .error e) :
    r.scanned s h templates start bound = .error (.conversion e) := by
  rw [scanned, toScan_eq, hbind]
  rfl

/-- A scan finds the first qualifying rows, each as the template shows it. -/
theorem scanned_eq_ok_iff (hdistinct : r.cells.Pairwise fun c d => c.sameColumn d = false)
    {rows : RowBatch} :
    r.scanned s h templates start bound = .ok rows ↔
      ∃ filter, FilterTemplate.bindAll templates r = .ok filter ∧
        List.Forall₂ r.Shows ((r.qualifying start filter (s.table h.table)).take bound) rows := by
  cases hbind : FilterTemplate.bindAll templates r with
  | error e =>
    rw [scanned_of_unbound hbind]
    simp
  | ok filter =>
    rw [scanned_of_bound hbind, mapM_eq_ok_iff]
    simp only [mapError_eq_ok_iff, ofScan_eq_ok_iff hdistinct]
    simp

/-- What makes a scan fail. -/
theorem exists_scanned_error_iff :
    (∃ err, r.scanned s h templates start bound = .error err) ↔
      (∃ e, FilterTemplate.bindAll templates r = .error e) ∨
        ∃ filter, FilterTemplate.bindAll templates r = .ok filter ∧
          ∃ row ∈ (r.qualifying start filter (s.table h.table)).take bound, r.Unreadable row := by
  cases hbind : FilterTemplate.bindAll templates r with
  | error e =>
    rw [scanned_of_unbound hbind]
    simp
  | ok filter =>
    rw [exists_error_iff, scanned_of_bound hbind, exists_mapM_ok_iff]
    simp only [mapError_eq_ok_iff, ← exists_ofScan_error_iff, exists_error_iff]
    simp

/-- An unfiltered scan succeeds when no row that it shows is unreadable. -/
theorem exists_scanned_unfiltered_iff :
    (∃ rows, r.scanned s h [] start bound = .ok rows) ↔
      ∀ row ∈ (r.qualifying start none (s.table h.table)).take bound, ¬ r.Unreadable row := by
  rw [← not_iff_not, ← exists_error_iff, exists_scanned_error_iff]
  have hbind : FilterTemplate.bindAll [] r = .ok none := rfl
  simp [hbind]

end Row

/-- The scans by a batch succeed when each of them does. -/
theorem RowBatch.exists_scanned_iff {batch : RowBatch} {s : Store} {h : Handle}
    {templates : List FilterTemplate} {m : Message} {bound : Nat}
    (hbound : Work.scanBound m = .ok bound) :
    (∃ rows, batch.scanned s h templates m = .ok rows) ↔ ∀ r ∈ batch, ∃ rows,
      r.scanned s h templates (m.headerText Header.startRow) bound = .ok rows := by
  rw [scanned, hbound, ← exists_foldlM_ok_iff]
  rfl

namespace Work

/-- A scan by a template whose cells are of different columns succeeds with the first rows that
qualify, in the order of their keys and each as the template shows it; it fails exactly when a
filter cannot be bound or one of these rows is unreadable.  Either way the session is as before. -/
theorem scanRows_shows_qualifying {template : Row}
    (hdistinct : template.cells.Pairwise fun c d => c.sameColumn d = false)
    (templates : List FilterTemplate) (start : Option String) (bound : Nat) (s : Session Store) :
    let first : Option Filter → List (Bytes × RowData) := fun filter =>
      (template.qualifying start filter (s.connection.table s.handle.table)).take bound
    (∀ filter, (first filter).Pairwise fun row row' => compare row.1 row'.1 = .lt) ∧
      (∀ rows s', scanRows templates start bound template s = .ok rows s' ↔
        s' = s ∧ ∃ filter, FilterTemplate.bindAll templates template = .ok filter ∧
          List.Forall₂ template.Shows (first filter) rows) ∧
      ((∃ err s', scanRows templates start bound template s = .error err s') ↔
        (∃ e, FilterTemplate.bindAll templates template = .error e) ∨
          ∃ filter, FilterTemplate.bindAll templates template = .ok filter ∧
            ∃ row ∈ first filter, template.Unreadable row) ∧
      ∀ err s', scanRows templates start bound template s = .error err s' → s' = s := by
  intro first
  have hrun : scanRows templates start bound template s =
      ofExcept (template.scanned s.connection s.handle templates start bound) s :=
    scanRows_comesTo s templates start bound template
  refine ⟨?_, ?_, ?_, ?_⟩
  · intro filter
    have hascending := (s.connection.table s.handle.table).ascending
    exact (hascending.filter _).sublist (List.take_sublist bound _)
  · intro rows s'
    rw [← Row.scanned_eq_ok_iff hdistinct, hrun]
    cases template.scanned s.connection s.handle templates start bound with
    | error err => simp [ofExcept]
    | ok rows' =>
      simp only [ofExcept, EStateM.Result.ok.injEq, Except.ok.injEq]
      rw [and_comm, eq_comm (a := s)]
  · rw [← Row.exists_scanned_error_iff, hrun]
    cases template.scanned s.connection s.handle templates start bound <;> simp [ofExcept]
  · intro err s' herror
    rw [hrun] at herror
    cases hscanned : template.scanned s.connection s.handle templates start bound with
    | error err' =>
      rw [hscanned] at herror
      cases herror
      rfl
    | ok rows =>
      rw [hscanned] at herror
      cases herror

/-- Of four rows the first lies before the start, the second lacks the column, and the fourth is
beyond the bound. -/
theorem scanRows_shows_qualifying_third :
    let column : Column := ⟨[102], [113]⟩
    let puts : List Put := [
      ⟨[97], [(column, [50])]⟩, ⟨[98], [(⟨[102], [114]⟩, [50])]⟩, ⟨[99], [(column, [50])]⟩,
      ⟨[100], [(column, [50])]⟩]
    let s : Session Store :=
      ⟨Store.flush (.createTable {} "t") { table := "t", pending := puts }, { table := "t" }⟩
    let template : Row :=
      { cells := [{ family := some "f", qualifier := some "q", value := some (.utf8 "2") }] }
    ∃ found, scanRows [.columnMatching] (some "b") 1 template s = .ok [found] s ∧
      found.id = some (.utf8 "c") ∧ found.timestamp = some 3 := by
  intro column puts s template
  have hdistinct : template.cells.Pairwise fun c d => c.sameColumn d = false :=
    List.pairwise_singleton _ _
  obtain ⟨-, hfound, -⟩ :=
    scanRows_shows_qualifying hdistinct [.columnMatching] (some "b") 1 s
  let row : Bytes × RowData := ([99], SortedMap.insert ∅ column [(3, [50])])
  let filter : Filter := .all [.all [.columnValue [102] [113] .equal [50]]]
  have hfirst : (template.qualifying (some "b") (some filter)
      (s.connection.table s.handle.table)).take 1 = [row] := by
    decide +kernel
  let c : Cell := { family := some "f", qualifier := some "q", value := some (.utf8 "2") }
  let found : Row :=
    { id := some (.utf8 "c"), timestamp := some 3, cells := [{ c with timestamp := some 3 }] }
  have hnames : c.Names column := ⟨"f", "q", rfl, rfl, by decide, by decide, rfl⟩
  have hversions : row.2.versions column = [(3, [50])] := rfl
  have hcell : c.Shows row.2 { c with value := some (.utf8 "2"), timestamp := some 3 } :=
    .held (w := .utf8 "2") hnames hversions rfl
  have hshows : template.Shows row found :=
    ⟨⟨.utf8 "c", rfl, rfl⟩, rfl, by decide +kernel, .cons hcell .nil⟩
  refine ⟨found, (hfound [found] s).2 ⟨rfl, some filter, rfl, ?_⟩, rfl, rfl⟩
  show List.Forall₂ template.Shows ((template.qualifying _ _ _).take 1) [found]
  rw [hfirst]
  exact .cons hshows .nil

end Work

end ColumnConnector
