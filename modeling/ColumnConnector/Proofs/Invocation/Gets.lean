import ColumnConnector.Proofs.Row.ReadBack

/-!
# Gets

A get by a row with a key and named columns fills in its cells one by one: each takes the newest
version of its column, read as its declared type, or stays empty where the column is not stored.
`Row.Fetches` says what is found, and `Row.FirstUnreadable` what makes the get fail.

The cells stand in the order of the row that asks.  The time of the row does not depend on that
order: it is the time of the least column that was found (`RowTime`).
-/

namespace ColumnConnector

/-- The cell as a get fills it in from the versions of a row. -/
inductive Cell.Fetches (versions : Column → Versions) (c : Cell) : Cell → Prop where
  | held {column : Column} {v : Int64 × Bytes} {older : Versions} {w : CellValue} :
      c.column = .ok column → versions column = v :: older → c.readType.decode v.2 = .ok w →
      Fetches versions c { c with value := some w, timestamp := some v.1 }
  | absent {column : Column} : c.column = .ok column → versions column = [] →
      Fetches versions c { c with value := none, timestamp := none }

/-- The newest version of the cell's column does not decode. -/
def Cell.Unreadable (versions : Column → Versions) (c : Cell) (e : ConversionError) : Prop :=
  ∃ column v older, c.column = .ok column ∧ versions column = v :: older ∧
    c.readType.decode v.2 = .error e

/-- The row that a get finds among the versions stored under its key. -/
structure Row.Fetches (versions : Column → Versions) (r found : Row) : Prop where
  id : found.id = r.id
  rowType : found.rowType = r.rowType
  timestamp : RowTime versions r.Requests found.timestamp
  cells : List.Forall₂ (Cell.Fetches versions) r.cells found.cells

/-- The first cell of the row that cannot be read fails with the error. -/
def Row.FirstUnreadable (versions : Column → Versions) (r : Row) (e : ConversionError) : Prop :=
  ∃ before c after, r.cells = before ++ c :: after ∧
    (∀ d ∈ before, ∀ e', ¬ d.Unreadable versions e') ∧ c.Unreadable versions e

namespace Cell

variable {versions : Column → Versions} {key : Bytes} {c : Cell}

theorem withVersion_newestAt_eq_ok_iff (hc : ∃ column, c.column = .ok column) {d : Cell} :
    c.withVersion (c.newestAt versions key) = .ok d ↔ c.Fetches versions d := by
  obtain ⟨column, hcolumn⟩ := hc
  have hnewest : c.newestAt versions key =
      (versions column).head?.map (KeyValue.ofVersion key column) := by
    rw [newestAt, hcolumn]
  rw [hnewest]
  cases hversions : versions column with
  | nil =>
    constructor
    · intro h
      cases h
      exact .absent hcolumn hversions
    · intro h
      cases h with
      | held hcolumn' hversions' =>
        cases hcolumn.symm.trans hcolumn'
        cases hversions.symm.trans hversions'
      | absent => rfl
  | cons v older =>
    constructor
    · intro h
      obtain ⟨w, hdecode, hcell⟩ := bind_eq_ok_iff.1 h
      cases hcell
      exact .held hcolumn hversions hdecode
    · intro h
      cases h with
      | held hcolumn' hversions' hdecode =>
        cases hcolumn.symm.trans hcolumn'
        cases hversions.symm.trans hversions'
        exact bind_eq_ok_iff.2 ⟨_, hdecode, rfl⟩
      | absent hcolumn' hversions' =>
        cases hcolumn.symm.trans hcolumn'
        cases hversions.symm.trans hversions'

theorem withVersion_newestAt_eq_error_iff {e : ConversionError} :
    c.withVersion (c.newestAt versions key) = .error e ↔ c.Unreadable versions e := by
  unfold newestAt Unreadable
  cases c.column with
  | error err =>
    constructor
    · intro h
      cases h
    · rintro ⟨column, v, older, hcolumn, -⟩
      cases hcolumn
  | ok column =>
    dsimp only
    cases hversions : versions column with
    | nil =>
      constructor
      · intro h
        cases h
      · rintro ⟨column', v, older, hcolumn, hversions', -⟩
        cases hcolumn
        cases hversions.symm.trans hversions'
    | cons v older =>
      constructor
      · intro h
        rcases bind_eq_error_iff.1 h with hdecode | ⟨w, -, hpure⟩
        · exact ⟨column, v, older, rfl, hversions, hdecode⟩
        · cases hpure
      · rintro ⟨column', v', older', hcolumn, hversions', hdecode⟩
        cases hcolumn
        cases hversions.symm.trans hversions'
        exact bind_eq_error_iff.2 (.inl hdecode)

theorem Fetches.sameColumn {c' d d' : Cell} (h : c.Fetches versions d)
    (h' : c'.Fetches versions d') : d.sameColumn d' = c.sameColumn c' := by
  cases h <;> cases h' <;> rfl

end Cell

namespace Row

variable {r : Row} {s : Store} {h : Handle} {key : Bytes} (hr : r.Gettable) (hkey : r.HasKey key)
include hr hkey

/-- A row whose cells are of different columns finds what is stored under its key. -/
theorem Gettable.found_eq_ok_iff
    (hdistinct : r.cells.Pairwise fun c d => c.sameColumn d = false) {found : Row} :
    r.found s h = .ok found ↔ r.Fetches (s.versions h.table key) found := by
  obtain ⟨time, htime, hfound⟩ := hr.exists_found_eq (s := s) (h := h) hkey
  have hcells : ∀ {cells : List Cell},
      r.cells.mapM (fun c => c.withVersion (c.newestAt (s.versions h.table key) key)) = .ok cells ↔
        List.Forall₂ (Cell.Fetches (s.versions h.table key)) r.cells cells := by
    intro cells
    rw [mapM_eq_ok_iff]
    apply forall₂_congr_of_mem
    intro c hc d
    exact Cell.withVersion_newestAt_eq_ok_iff (hr.named c hc)
  have hadded : ∀ {base : Row} {cells : List Cell}, base.cells = [] →
      List.Forall₂ (Cell.Fetches (s.versions h.table key)) r.cells cells →
      cells.foldl addCell base = { base with cells := cells } := by
    intro base cells hnone hfetches
    have hcolumns : cells.Pairwise fun c d => c.sameColumn d = false := by
      apply pairwise_of_forall₂ hfetches hdistinct
      intro a b a' b' ha hb hab
      rw [ha.sameColumn hb]
      exact hab
    rw [foldl_addCell base _ hcolumns, hnone, List.nil_append]
    intro c _
    rw [hasColumnOf, hnone]
    rfl
  rw [hfound, mapError_eq_ok_iff, bind_eq_ok_iff]
  constructor
  · rintro ⟨cells, hread, h⟩
    have hfetches := hcells.1 hread
    rw [hadded rfl hfetches] at h
    cases h
    exact ⟨rfl, rfl, htime, hfetches⟩
  · intro h
    refine ⟨found.cells, hcells.2 h.cells, ?_⟩
    rw [hadded rfl h.cells, ← h.id, ← h.rowType, htime.unique h.timestamp]
    rfl

/-- A get fails with the error of the first cell that cannot be read. -/
theorem Gettable.found_eq_error_iff {err : ConnectorError} :
    r.found s h = .error err ↔
      ∃ e, err = .conversion e ∧ r.FirstUnreadable (s.versions h.table key) e := by
  obtain ⟨time, -, hfound⟩ := hr.exists_found_eq (s := s) (h := h) hkey
  rw [hfound, mapError_eq_error_iff]
  apply exists_congr
  intro e
  rw [bind_eq_error_iff, and_comm, eq_comm]
  apply and_congr_right'
  have hreadable : ∀ c : Cell,
      (∃ d, c.withVersion (c.newestAt (s.versions h.table key) key) = .ok d) ↔
        ∀ e', ¬ c.Unreadable (s.versions h.table key) e' := by
    intro c
    rw [← not_iff_not, ← exists_error_iff]
    simp only [Cell.withVersion_newestAt_eq_error_iff, not_forall, not_not]
  rw [mapM_eq_error_iff]
  simp only [hreadable, Cell.withVersion_newestAt_eq_error_iff]
  constructor
  · rintro (hfirst | ⟨_, _, hpure⟩)
    · exact hfirst
    · cases hpure
  · intro hfirst
    exact .inl hfirst

/-- A get fails exactly when some newest version does not decode. -/
theorem Gettable.exists_found_error_iff :
    (∃ err, r.found s h = .error err) ↔
      ∃ c ∈ r.cells, ∃ e, c.Unreadable (s.versions h.table key) e := by
  rw [exists_error_iff, exists_found_iff hr hkey]
  constructor
  · intro hnot
    push Not at hnot
    obtain ⟨c, hc, column, v, older, hcolumn, hversions, hdecode⟩ := hnot
    obtain ⟨e, he⟩ := exists_error_iff.2 (not_exists.2 hdecode)
    exact ⟨c, hc, e, column, v, older, hcolumn, hversions, he⟩
  · rintro ⟨c, hc, e, column, v, older, hcolumn, hversions, he⟩ hread
    obtain ⟨w, hdecode⟩ := hread c hc column v older hcolumn hversions
    cases he.symm.trans hdecode

end Row

namespace Work

/-- A get by a row with a key and cells of different named columns finds the newest version of each
of them, cell by cell in the order of the row, and takes its time from the least column that is
stored.  It fails exactly when a newest version does not decode, with the error of the first such
cell.  Either way the session is as before. -/
theorem getRow_fetches_newest {r : Row} (hr : r.Gettable)
    (hdistinct : r.cells.Pairwise fun c d => c.sameColumn d = false) {key : Bytes}
    (hkey : r.HasKey key) (s : Session Store) :
    let versions := s.connection.versions s.handle.table key
    (∀ found s', getRow r s = .ok found s' ↔ s' = s ∧ r.Fetches versions found) ∧
      (∀ err s', getRow r s = .error err s' ↔
        s' = s ∧ ∃ e, err = .conversion e ∧ r.FirstUnreadable versions e) ∧
      ((∃ err s', getRow r s = .error err s') ↔
        ∃ c ∈ r.cells, ∃ e, c.Unreadable versions e) := by
  intro versions
  have hrun : (getRow r).ComesTo s (r.found s.connection s.handle) := getRow_comesTo s r
  refine ⟨?_, ?_, ?_⟩
  · intro found s'
    rw [hrun.eq_ok_iff, hr.found_eq_ok_iff hkey hdistinct]
  · intro err s'
    rw [hrun.eq_error_iff, hr.found_eq_error_iff hkey]
  · simp only [hrun.eq_error_iff, exists_eq_left]
    exact hr.exists_found_error_iff hkey

/-- The cells are asked for in another order than that of the columns: the time of the row is that
of its last cell. -/
theorem getRow_fetches_newest_disordered :
    let puts : List Put := [
      ⟨[114], [(⟨[102], [98]⟩, [0, 0, 0, 7]), (⟨[102], [97]⟩, [120])]⟩,
      ⟨[114], [(⟨[102], [97]⟩, [121])]⟩]
    let s : Session Store :=
      ⟨Store.flush (.createTable {} "t") { table := "t", pending := puts }, { table := "t" }⟩
    let b : Cell := { family := some "f", qualifier := some "b", valueType := some .int32 }
    let c : Cell := { family := some "f", qualifier := some "c", value := some (.bool true) }
    let a : Cell := { family := some "f", qualifier := some "a" }
    getRow { id := some (.utf8 "r"), cells := [b, c, a] } s = .ok {
      id := some (.utf8 "r"), timestamp := some 2
      cells := [{ b with value := some (.int32 7), timestamp := some 1 }, { c with value := none },
        { a with value := some (.utf8 "y"), timestamp := some 2 }] } s := by
  intro puts s b c a
  let r : Row := { id := some (.utf8 "r"), cells := [b, c, a] }
  have hb : b.column = .ok ⟨[102], [98]⟩ := rfl
  have hc : c.column = .ok ⟨[102], [99]⟩ := rfl
  have ha : a.column = .ok ⟨[102], [97]⟩ := rfl
  have hkey : r.HasKey [114] := ⟨.utf8 "r", rfl, rfl⟩
  have hr : r.Gettable := by
    refine ⟨⟨_, hkey⟩, List.cons_ne_nil _ _, ?_⟩
    simp [r, hb, hc, ha]
  have hdistinct : r.cells.Pairwise fun c d => c.sameColumn d = false := by
    decide
  let versions := s.connection.versions s.handle.table [114]
  have hvb : versions ⟨[102], [98]⟩ = [(1, [0, 0, 0, 7])] := by decide +kernel
  have hvc : versions ⟨[102], [99]⟩ = [] := by decide +kernel
  have hva : versions ⟨[102], [97]⟩ = [(2, [121]), (1, [120])] := by decide +kernel
  have htime : RowTime versions r.Requests (some 2) := by
    refine .least ⟨a, by simp [r], ha⟩ hva ?_
    rintro column ⟨cell, hcell, hcolumn⟩ -
    have hcells : cell = b ∨ cell = c ∨ cell = a := by simpa [r] using hcell
    rcases hcells with rfl | rfl | rfl
    · cases hcolumn
      decide
    · cases hcolumn
      decide
    · cases hcolumn
      decide
  obtain ⟨hfound, -⟩ := getRow_fetches_newest hr hdistinct hkey s
  refine (hfound _ s).2 ⟨rfl, rfl, rfl, htime, ?_⟩
  exact .cons (.held (w := .int32 7) hb hvb rfl)
    (.cons (.absent hc hvc) (.cons (.held (w := .utf8 "y") ha hva rfl) .nil))

end Work

end ColumnConnector
