import ColumnConnector.Proofs.Store.Timestamps

/-!
# What a session stores and answers

After any session with an empty store, the versions of every column are the newest entries of its
history, whatever handles, pools, tables and deletions were interleaved, and a get through any
handle returns the first of them: column after column in ascending order, the newest version first.

Newest first is meant in the order of the timestamps.  It is the order of the writes as long as the
clock does not run out.
-/

namespace ColumnConnector

/-- The newest entries of every history of a table. -/
def Journal.view (j : Journal) (limit : Nat) (table : String) : View :=
  fun key column => (j.history table key column).take limit

/-- An empty store agrees with an empty journal. -/
theorem Store.follows_keeping (versions : Nat) :
    (Store.keeping versions).Follows (max 1 versions) {} where
  limit_eq := Nat.max_comm versions 1
  clock_eq := rfl
  contains_iff := by
    intro table
    constructor
    · intro h
      exact absurd h Bool.false_ne_true
    · intro h
      exact absurd h List.not_mem_nil
  versions_eq := by
    intro table key column
    exact List.take_nil.symm

section Workspace

variable {π : Type} [Pooling π]

theorem Workspace.follows_keeping (versions : Nat) :
    ({ store := .keeping versions } : Workspace π).Follows (max 1 versions) {} where
  store := Store.follows_keeping versions
  held_eq := by
    intro name
    rfl
  onTables := by
    constructor
    · intro name held h
      exact absurd h (by simp [SortedMap.get?_empty])
    · intro name p h
      exact absurd h (by simp [SortedMap.get?_empty])

/-- A get through a held handle does nothing but look at the store. -/
theorem Workspace.step_get {w : Workspace π} {name : String} {held : Held}
    (h : w.handles.get? name = some held) (g : Get) :
    w.step (.get name g) = (.result ((w.store.table held.handle.table).get g), w) := by
  show w.withHandle name _ = _
  rw [withHandle, h]
  rfl

end Workspace

/-- The journal of a session starts at a clock that shows zero. -/
theorem Journal.timely_empty {latest : Int} (h : 0 ≤ latest) : Timely {} latest where
  start := h
  now_le := h
  later_le := List.forall_mem_nil _
  last_le := by
    show (0 : Int64).toInt ≤ latest + 0
    rw [Int64.toInt_zero]
    omega
  newest := by
    intro t ht
    exact absurd ht List.not_mem_nil
  descending := .nil

/-- While the clock lasts, the timestamps of a session descend towards the earlier writes. -/
theorem ClockLasts.timely {π : Type} {steps : List Step} {answers : List (Answer π)}
    (h : ClockLasts steps ((({} : Journal).followAll (steps.zip answers)).times.length)) :
    ∃ latest, (({} : Journal).followAll (steps.zip answers)).Timely latest := by
  -- The clock is never set beyond the last setting that leaves room for all writes.
  let latest : Int := Int64.maxValue.toInt -
    (({} : Journal).followAll (steps.zip answers)).times.length
  have hstart : 0 ≤ latest := by
    have hzero := h 0 (.inl rfl)
    rw [Int64.toInt_zero] at hzero
    omega
  have hset : ∀ e ∈ steps.zip answers, ∀ t ∈ e.1.readings, t.toInt ≤ latest := by
    intro e he t ht
    have hlast := h t (.inr ⟨e.1, (List.of_mem_zip he).1, ht⟩)
    omega
  exact ⟨latest, (Journal.timely_empty hstart).followAll (steps.zip answers) hset (by omega)⟩

/-- While the clock lasts, the timestamps of every history of a session descend. -/
theorem ClockLasts.history_descending {π : Type} {steps : List Step} {answers : List (Answer π)}
    (h : ClockLasts steps ((({} : Journal).followAll (steps.zip answers)).times.length))
    (table : String) (key : Bytes) (column : Column) :
    ((({} : Journal).followAll (steps.zip answers)).history table key column).Pairwise
      fun a b => b.1 ≤ a.1 := by
  obtain ⟨latest, htimely⟩ := h.timely
  exact htimely.history_descending table key column

/-- A session with an empty store that keeps `versions` versions, at least one: the store holds the
newest entries of each history, each name stands for the handle that the journal has under it, and
every get returns the first of these entries for each column that it asks for and that has any, in
store order.  While the clock lasts, that is the order of the histories. -/
theorem session_refines_journal (π : Type) [Pooling π] (versions : Nat) (steps : List Step) :
    let start : Workspace π := { store := .keeping versions }
    let w := (start.run steps).2
    let j := ({} : Journal).followAll (steps.zip (start.run steps).1)
    (∀ table, w.store.versions table = j.view (max 1 versions) table) ∧
    (∀ name, (w.handles.get? name).map (·.handle) = j.held name) ∧
    ∀ name handle, j.held name = some handle → ∀ g : Get, ∃ r columns,
      w.step (.get name g) = (.result r, w) ∧
      columns.Pairwise (fun c d => compare c d = .lt) ∧
      (∀ c, c ∈ columns ↔ g.Asks c ∧ j.history handle.table g.row c ≠ []) ∧
      r.Holds g.row
        (View.cells (j.view (max 1 versions) handle.table) g.row g.maxVersions columns) ∧
      (0 < g.maxVersions →
        (r = .empty ↔ ∀ c, g.Asks c → j.history handle.table g.row c = [])) ∧
      (ClockLasts steps j.times.length →
        r.cells =
          View.cells (j.view (max 1 versions) handle.table) g.row g.maxVersions columns) := by
  intro start w j
  have hfollows : w.Follows (max 1 versions) j :=
    (Workspace.follows_keeping versions).run steps
  have hview : ∀ table, w.store.versions table = j.view (max 1 versions) table := by
    intro table
    funext key column
    exact hfollows.store.versions_eq table key column
  refine ⟨hview, hfollows.held_eq, ?_⟩
  intro name handle hheld g
  have hget := hfollows.held_eq name
  rw [hheld] at hget
  obtain ⟨held, hname, rfl⟩ := Option.map_eq_some_iff.1 hget
  obtain ⟨columns, hascending, hcolumns, hholds⟩ :=
    (w.store.table held.handle.table).get_holds g
  have htable : (w.store.table held.handle.table).versions =
      j.view (max 1 versions) held.handle.table := hview held.handle.table
  rw [htable] at hcolumns hholds
  have hkept : ∀ c, j.view (max 1 versions) held.handle.table g.row c ≠ [] ↔
      j.history held.handle.table g.row c ≠ [] := by
    intro c
    have hpos : max 1 versions ≠ 0 := by omega
    simp [Journal.view, List.take_eq_nil_iff, hpos]
  have hcolumns' : ∀ c, c ∈ columns ↔ g.Asks c ∧ j.history held.handle.table g.row c ≠ [] := by
    intro c
    rw [hcolumns, hkept]
  refine ⟨_, columns, Workspace.step_get hname g, hascending, hcolumns', hholds, ?_, ?_⟩
  · intro hpos
    have hnil := View.cells_eq_nil_iff hpos fun c hc => ((hcolumns c).1 hc).2
    rw [hholds.empty_iff, hnil]
    constructor
    · intro h c hc
      by_contra hne
      have hmem := (hcolumns' c).2 ⟨hc, hne⟩
      rw [h] at hmem
      exact absurd hmem List.not_mem_nil
    · intro h
      refine List.eq_nil_iff_forall_not_mem.2 fun c hc => ?_
      obtain ⟨hask, hne⟩ := (hcolumns' c).1 hc
      exact hne (h c hask)
  · intro hclock
    refine hholds.exact (View.cells_ordered _ hascending fun c => ?_)
    have hdescending := hclock.history_descending held.handle.table g.row c
    exact hdescending.sublist (List.take_sublist _ _)

/-- Two handles on one table: the flush that comes later writes the newer version. -/
theorem session_refines_journal_two_handles :
    let column : Column := ⟨[102], [113]⟩
    let steps : List Step := [
      .createTable "t", .openTable "t" "a", .openTable "t" "b",
      .put "a" [⟨[7], [(column, [1])]⟩], .put "b" [⟨[7], [(column, [2])]⟩],
      .flush "b", .flush "a"]
    let w := (({ store := .keeping 2 } : Workspace).run steps).2
    ∃ r, w.step (.get "a" { row := [7], columns := [column], maxVersions := 2 }) = (.result r, w) ∧
      r.cells = [⟨[7], [102], [113], 2, [1]⟩, ⟨[7], [102], [113], 1, [2]⟩] := by
  intro column steps w
  let j := ({} : Journal).followAll
    (steps.zip (({ store := .keeping 2 } : Workspace).run steps).1)
  have hheld : j.held "a" = some { table := "t" } := by rfl
  have hlasts : ClockLasts steps j.times.length := by
    intro now hnow
    have hzero : now = 0 := by simpa [steps, Step.readings] using hnow
    rw [hzero]
    decide
  have hhistory : j.history "t" [7] column = [(2, [1]), (1, [2])] := by rfl
  obtain ⟨-, -, hget⟩ := session_refines_journal Pool 2 steps
  obtain ⟨r, columns, hstep, hascending, hmem, -, -, hcells⟩ :=
    hget "a" { table := "t" } hheld { row := [7], columns := [column], maxVersions := 2 }
  have hcolumns : columns = [column] := by
    refine Column.eq_of_ascending hascending (List.pairwise_singleton _ _) fun c => ?_
    rw [hmem c]
    constructor
    · intro h
      simpa [Get.Asks] using h.1
    · intro h
      rw [List.mem_singleton.1 h]
      exact ⟨.inr List.mem_cons_self, by rw [hhistory]; exact List.cons_ne_nil _ _⟩
  refine ⟨r, hstep, ?_⟩
  rw [hcells hlasts, hcolumns]
  show List.map _ (((j.history "t" [7] column).take 2).take 2) ++ [] = _
  rw [hhistory]
  rfl

end ColumnConnector
