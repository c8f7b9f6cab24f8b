import ColumnConnector.Proofs.Store.Answers
import ColumnConnector.Proofs.Store.Requests
import ColumnConnector.Proofs.Store.Scanning
import Mathlib.Data.Set.Card

/-!
# Counted rows and readable rows

A put without cells makes a row without columns.  The row is stored and counted until it is deleted,
but it is hollow: no get finds it and no scan returns it.

The journal knows the hollow rows.  `Journal.puts` lists what was written to a row since its last
deletion.  A row is stored when there is any such put (`Store.HasKeys`) and can be read when one of
them has a cell, so the row count exceeds the number of readable rows by that of the hollow ones
(`Workspace.session_rowCount`).  There are none in a session whose puts all have cells, since a
journal notes no other puts than those that were requested (`Journal.OnlyPuts.followAll`).
-/

namespace ColumnConnector

/-! ### The puts behind a row -/

/-- The put, if the event writes to the row. -/
def Event.put? (table : String) (key : Bytes) : Event → Option Put
  | .written table' _ put => if table = table' ∧ key = put.row then some put else none
  | .deleted _ _ => none

/-- An event writes no version to any column of a row unless it is a put with cells. -/
theorem Event.versions_eq_nil_iff (e : Event) (table : String) (key : Bytes) :
    (∀ column, e.versions table key column = []) ↔
      ∀ p, e.put? table key = some p → p.cells = [] := by
  cases e with
  | deleted table' key' => simp [versions, put?]
  | written table' time put =>
    by_cases hat : table = table' ∧ key = put.row
    · simp only [versions, put?, if_pos hat, List.reverse_eq_nil_iff, List.map_eq_nil_iff,
        List.filter_eq_nil_iff, Option.some.injEq]
      constructor
      · rintro hnone p rfl
        refine List.eq_nil_iff_forall_not_mem.2 fun cell hcell => ?_
        exact hnone cell.1 cell hcell (decide_eq_true rfl)
      · intro hcells column cell hcell
        rw [hcells put rfl] at hcell
        exact absurd hcell List.not_mem_nil
    · simp [versions, put?, hat]

namespace Journal

/-- The puts that were written to a row since its last deletion, the newest first. -/
def puts (j : Journal) (table : String) (key : Bytes) : List Put :=
  (j.events.takeWhile fun e => !e.removes table key).filterMap (Event.put? table key)

theorem puts_write (table : String) (j : Journal) (put : Put) (table' : String) (key : Bytes) :
    (write table j put).puts table' key =
      if table' = table ∧ key = put.row then put :: j.puts table' key else j.puts table' key := by
  by_cases hat : table' = table ∧ key = put.row <;>
    simp [puts, write, Event.removes, Event.put?, hat]

theorem puts_remove (table : String) (j : Journal) (key : Bytes) (table' : String) (key' : Bytes) :
    (remove table j key).puts table' key' =
      if table' = table ∧ key' = key then [] else j.puts table' key' := by
  by_cases hat : table = table' ∧ key = key'
  · simp [puts, remove, Event.removes, hat]
  · have hne : ¬ (table' = table ∧ key' = key) := fun h => hat ⟨h.1.symm, h.2.symm⟩
    have hkeep : (Event.deleted table key).removes table' key' = false := by
      simpa [Event.removes] using hat
    simp [puts, remove, hkeep, List.filterMap_cons, Event.put?, hne]

theorem puts_foldl_remove (table : String) (j : Journal) (keys : List Bytes) (table' : String)
    (key : Bytes) :
    (keys.foldl (remove table) j).puts table' key =
      if table' = table ∧ key ∈ keys then [] else j.puts table' key := by
  induction keys generalizing j with
  | nil => simp
  | cons k rest ih =>
    rw [List.foldl_cons, ih, puts_remove]
    by_cases ht : table' = table <;> by_cases hk : key = k <;> simp [ht, hk]

/-- A row has no history when none of its puts has a cell. -/
theorem history_eq_nil_iff (j : Journal) (table : String) (key : Bytes) :
    (∀ column, j.history table key column = []) ↔ ∀ p ∈ j.puts table key, p.cells = [] := by
  simp only [history, puts, List.flatMap_eq_nil_iff, List.mem_filterMap]
  constructor
  · rintro hnone p ⟨e, he, hp⟩
    exact (e.versions_eq_nil_iff table key).1 (fun column => hnone column e he) p hp
  · intro hcells column e he
    exact (e.versions_eq_nil_iff table key).2 (fun p hp => hcells p ⟨e, he, hp⟩) column

/-- Buffering and discarding is no event. -/
theorem events_through {j : Journal} {name : String} {f : Handle → Journal}
    (hf : ∀ handle, (f handle).events = j.events) : (j.through name f).events = j.events := by
  rw [through]
  cases j.held name with
  | none => rfl
  | some handle => exact hf handle

/-! ### Puts of one kind -/

/-- All puts that are noted, flushed ones and buffered ones, are of a kind. -/
structure OnlyPuts (j : Journal) (kind : Put → Prop) : Prop where
  written : ∀ table time p, .written table time p ∈ j.events → kind p
  buffered : ∀ name handle, j.held name = some handle → ∀ p ∈ handle.pending, kind p

namespace OnlyPuts

variable {j : Journal} {kind : Put → Prop}

theorem empty : OnlyPuts {} kind where
  written := fun _ _ _ h => absurd h List.not_mem_nil
  buffered := fun _ _ h => by cases h

variable (h : j.OnlyPuts kind)
include h

theorem of_mem_puts {table : String} {key : Bytes} {p : Put} (hp : p ∈ j.puts table key) :
    kind p := by
  obtain ⟨e, he, hput⟩ := List.mem_filterMap.1 hp
  have hmem : e ∈ j.events := (List.takeWhile_sublist _).subset he
  cases e with
  | deleted => cases hput
  | written table' time put =>
    simp only [Event.put?] at hput
    split at hput
    · cases hput
      exact h.written table' time p hmem
    · cases hput

theorem hold (name : String) {held : Option Handle}
    (hheld : ∀ handle, held = some handle → ∀ p ∈ handle.pending, kind p) :
    (j.hold name held).OnlyPuts kind where
  written := h.written
  buffered := by
    intro other handle hother
    rw [held_hold] at hother
    split at hother
    · exact hheld handle hother
    · exact h.buffered other handle hother

theorem foldl_write (table : String) {puts : List Put} (hputs : ∀ p ∈ puts, kind p) :
    (puts.foldl (write table) j).OnlyPuts kind := by
  induction puts generalizing j with
  | nil => exact h
  | cons p rest ih =>
    obtain ⟨hp, hrest⟩ := List.forall_mem_cons.1 hputs
    refine ih ⟨fun table' time q hq => ?_, h.buffered⟩ hrest
    rcases List.mem_cons.1 hq with heq | hmem
    · cases heq
      exact hp
    · exact h.written table' time q hmem

theorem foldl_remove (table : String) (keys : List Bytes) :
    (keys.foldl (remove table) j).OnlyPuts kind := by
  induction keys generalizing j with
  | nil => exact h
  | cons k rest ih =>
    refine ih ⟨fun table' time q hq => ?_, h.buffered⟩
    rcases List.mem_cons.1 hq with heq | hmem
    · cases heq
    · exact h.written table' time q hmem

theorem through (name : String) {f : Handle → Journal}
    (hf : ∀ handle, (∀ p ∈ handle.pending, kind p) → (f handle).OnlyPuts kind) :
    (j.through name f).OnlyPuts kind := by
  rw [Journal.through]
  cases hheld : j.held name with
  | none => exact h
  | some handle => exact hf handle (h.buffered name handle hheld)

/-- A request notes no puts but those that it buffers. -/
theorem follow {π : Type} (s : Step) (answer : Answer π)
    (hputs : ∀ name puts, s = .put name puts → ∀ p ∈ puts, kind p) :
    (j.follow s answer).OnlyPuts kind := by
  have hfresh : ∀ (name table : String), (j.hold name (some { table })).OnlyPuts kind := by
    intro name table
    refine h.hold name fun handle heq => ?_
    cases heq
    exact List.forall_mem_nil _
  cases s with
  | openTable table name =>
    simp only [Journal.follow]
    split
    · exact hfresh name table
    · exact h
  | put name puts =>
    refine h.through name fun handle hpending => ?_
    split
    · exact h
    · refine h.hold name fun handle' heq => ?_
      cases heq
      exact List.forall_mem_append.2 ⟨hpending, hputs name puts rfl⟩
  | flush name =>
    refine h.through name fun handle hpending => ?_
    refine (h.foldl_write handle.table hpending).hold name fun handle' heq => ?_
    cases heq
    exact List.forall_mem_nil _
  | discard name =>
    refine h.through name fun handle _ => h.hold name fun handle' heq => ?_
    cases heq
    exact List.forall_mem_nil _
  | delete name keys => exact h.through name fun handle _ => h.foldl_remove handle.table keys
  | checkout pool name =>
    cases answer with
    | checkout outcome p =>
      cases outcome with
      | granted handle => exact hfresh name handle.table
      | _ => exact h
    | _ => exact h
  | release name => exact h.hold name fun handle heq => by cases heq
  | _ => exact ⟨h.written, h.buffered⟩

theorem followAll {π : Type} (transcript : List (Step × Answer π))
    (hputs : ∀ e ∈ transcript, ∀ name puts, e.1 = .put name puts → ∀ p ∈ puts, kind p) :
    (j.followAll transcript).OnlyPuts kind := by
  induction transcript generalizing j with
  | nil => exact h
  | cons e rest ih =>
    obtain ⟨hfirst, hrest⟩ := List.forall_mem_cons.1 hputs
    exact ih (h.follow e.1 e.2 hfirst) hrest

end OnlyPuts

end Journal

/-! ### Stored rows -/

/-- The store holds the rows that were put since their last deletion. -/
def Store.HasKeys (s : Store) (j : Journal) : Prop :=
  ∀ table key, SortedMap.contains (s.table table) key = true ↔ j.puts table key ≠ []

namespace Store.HasKeys

variable {s : Store} {j : Journal} (h : s.HasKeys j)
include h

/-- Only the tables and the events count. -/
theorem congr {s' : Store} {j' : Journal} (htables : ∀ table, s'.table table = s.table table)
    (hevents : j'.events = j.events) : s'.HasKeys j' := by
  intro table key
  rw [htables, Journal.puts, hevents]
  exact h table key

theorem commit (table : String) (p : Put) :
    (s.commit table p).HasKeys (Journal.write table j p) := by
  intro table' key
  rw [Journal.puts_write]
  by_cases ht : table' = table
  · subst ht
    rw [table_commit, Table.contains_write]
    by_cases hk : key = p.row <;> simp [hk, h table' key]
  · rw [table_eq_of_get? (get?_commit_other s p ht), if_neg fun hat => ht hat.1]
    exact h table' key

theorem flush (handle : Handle) :
    (s.flush handle).HasKeys (handle.pending.foldl (Journal.write handle.table) j) := by
  unfold Store.flush
  induction handle.pending generalizing s j with
  | nil => exact h
  | cons p rest ih => exact ih (h.commit handle.table p)

theorem delete (handle : Handle) (keys : List Bytes) :
    (s.delete handle keys).HasKeys (keys.foldl (Journal.remove handle.table) j) := by
  intro table key
  rw [Journal.puts_foldl_remove]
  by_cases ht : table = handle.table
  · subst ht
    have htable : (s.delete handle keys).table handle.table =
        (s.table handle.table).delete keys := by
      rw [Store.delete, table_setTable, if_pos rfl]
    rw [htable, SortedMap.contains, Table.get?_delete]
    by_cases hk : key ∈ keys
    · simp [hk]
    · simpa [hk, SortedMap.contains] using h handle.table key
  · rw [table_eq_of_get? (get?_delete_other s handle keys ht), if_neg fun hat => ht hat.1]
    exact h table key

end Store.HasKeys

namespace Workspace.Follows

variable {π : Type} [Pooling π] {w : Workspace π} {limit : Nat} {j : Journal}

/-- A request that gets through to a handle reaches it in the journal, too. -/
theorem hasKeys_step (h : w.Follows limit j) (hkeys : w.store.HasKeys j) (s : Step)
    (answer : Answer π) : (w.storeAfter s).HasKeys (j.follow s answer) := by
  have hsame : ∀ {j' : Journal}, j'.events = j.events → w.store.HasKeys j' :=
    hkeys.congr fun _ => rfl
  cases s with
  | setTime now later => exact hkeys.congr (fun _ => rfl) rfl
  | createTable table => exact hkeys.congr (w.store.table_createTable table) rfl
  | openTable table name =>
    refine hsame ?_
    simp only [Journal.follow]
    split <;> rfl
  | put name puts =>
    refine hsame (Journal.events_through fun handle => ?_)
    split <;> rfl
  | discard name => exact hsame (Journal.events_through fun handle => rfl)
  | flush name =>
    simp only [storeAfter, Journal.follow, Journal.through, ← h.held_eq name]
    cases w.handles.get? name with
    | none => exact hkeys
    | some held => exact (hkeys.flush held.handle).congr (fun _ => rfl) rfl
  | delete name keys =>
    simp only [storeAfter, Journal.follow, Journal.through, ← h.held_eq name]
    cases w.handles.get? name with
    | none => exact hkeys
    | some held => exact hkeys.delete held.handle keys
  | checkout pool name =>
    rcases j.follow_checkout pool name answer with he | ⟨handle, he⟩ <;> rw [he]
    · exact hkeys
    · exact hsame rfl
  | _ => exact hsame rfl

theorem hasKeys_run (h : w.Follows limit j) (hkeys : w.store.HasKeys j) (steps : List Step) :
    (w.run steps).2.store.HasKeys (j.followAll (steps.zip (w.run steps).1)) := by
  induction steps generalizing w j with
  | nil => exact hkeys
  | cons s rest ih =>
    have hstep : (w.step s).2.store.HasKeys (j.follow s (w.step s).1) := by
      rw [store_step]
      exact h.hasKeys_step hkeys s _
    exact ih (h.step s) hstep

end Workspace.Follows

/-! ### Readable rows -/

namespace Table

/-- A get of at least one version finds nothing of a row without versions. -/
theorem get_isEmpty_iff (t : Table) {g : Get} (hone : 0 < g.maxVersions) :
    (t.get g).isEmpty = true ↔ ∀ c, g.Asks c → t.versions g.row c = [] := by
  obtain ⟨columns, -, hcolumns, hholds⟩ := t.get_holds g
  rw [StoreResult.isEmpty, List.isEmpty_iff, ← List.perm_nil, hholds.perm.congr_left,
    List.perm_nil, View.cells_eq_nil_iff hone fun c hc => ((hcolumns c).1 hc).2,
    List.eq_nil_iff_forall_not_mem]
  refine forall_congr' fun c => ?_
  rw [hcolumns c]
  simp

/-- A plain scan returns a row when the row has a version in any column. -/
theorem returns_plain_iff (t : Table) {row : Bytes × RowData} (hrow : row ∈ t.entries) :
    ({} : Scan).returns row = true ↔ ∃ c, t.versions row.1 c ≠ [] := by
  rw [versions_of_some (SortedMap.get?_eq_some_iff.2 hrow)]
  have hnone : row.2.newest row.1 ({} : Scan).asks = [] ↔ ∀ c, row.2.versions c = [] := by
    rw [RowData.newest_eq_nil_iff]
    simp [Scan.asks]
  simp [Scan.returns, hnone]

/-- The keys of the rows that a plain scan passes over. -/
def hollowKeys (t : Table) : List Bytes :=
  (t.entries.filter fun row => !({} : Scan).returns row).map Prod.fst

theorem mem_hollowKeys_iff (t : Table) (key : Bytes) :
    key ∈ t.hollowKeys ↔ SortedMap.contains t key = true ∧ ∀ c, t.versions key c = [] := by
  simp only [hollowKeys, List.mem_map, List.mem_filter, SortedMap.contains]
  constructor
  · rintro ⟨row, ⟨hrow, hnot⟩, rfl⟩
    rw [SortedMap.get?_eq_some_iff.2 hrow]
    refine ⟨rfl, fun c => not_not.1 fun hc => ?_⟩
    rw [(t.returns_plain_iff hrow).2 ⟨c, hc⟩] at hnot
    exact Bool.false_ne_true hnot
  · rintro ⟨hstored, hnone⟩
    obtain ⟨data, hdata⟩ := Option.isSome_iff_exists.1 hstored
    have hrow := SortedMap.get?_eq_some_iff.1 hdata
    refine ⟨(key, data), ⟨hrow, ?_⟩, rfl⟩
    rw [Bool.not_eq_true', ← Bool.not_eq_true, t.returns_plain_iff hrow]
    exact fun ⟨c, hc⟩ => hc (hnone c)

theorem mem_scan_iff (t : Table) (key : Bytes) :
    key ∈ (t.scan {}).map (·.row) ↔ ∃ c, t.versions key c ≠ [] := by
  rw [scan_eq, List.map_map]
  constructor
  · intro hkey
    obtain ⟨row, hrow, rfl⟩ := List.mem_map.1 hkey
    obtain ⟨hmem, hreturned⟩ := List.mem_filter.1 hrow
    exact (t.returns_plain_iff hmem).1 hreturned
  · rintro ⟨c, hc⟩
    cases hdata : SortedMap.get? t key with
    | none => simp [versions, hdata] at hc
    | some data =>
      have hrow := SortedMap.get?_eq_some_iff.1 hdata
      have hreturned := (t.returns_plain_iff hrow).2 ⟨c, hc⟩
      exact List.mem_map.2 ⟨(key, data), List.mem_filter.2 ⟨hrow, hreturned⟩, rfl⟩

/-- No two results of a scan are of one row. -/
theorem nodup_scan (t : Table) (s : Scan) : ((t.scan s).map (·.row)).Nodup := by
  rw [scan_eq, List.map_map]
  exact t.nodup_keys.sublist (List.filter_sublist.map Prod.fst)

theorem nodup_hollowKeys (t : Table) : t.hollowKeys.Nodup :=
  t.nodup_keys.sublist (List.filter_sublist.map Prod.fst)

/-- A stored row is returned by a plain scan or is hollow. -/
theorem size_eq (t : Table) : t.size = (t.scan {}).length + t.hollowKeys.length := by
  rw [scan_eq, hollowKeys, List.length_map, List.length_map]
  exact List.length_eq_length_filter_add _

end Table

/-- A list without repetitions is as long as the set of its elements is large. -/
theorem length_eq_ncard {α : Type} [DecidableEq α] {l : List α} (hl : l.Nodup) {s : Set α}
    (hs : ∀ a, a ∈ s ↔ a ∈ l) : s.Finite ∧ l.length = s.ncard := by
  have hset : s = (l.toFinset : Set α) := by
    ext a
    simp [hs a]
  rw [hset, Set.ncard_coe_finset, List.toFinset_card_of_nodup hl]
  exact ⟨l.toFinset.finite_toSet, rfl⟩

namespace Workspace

/-- A table counts, besides the rows that can be read, its hollow ones.  The rows that a plain scan
returns are those that a get without columns finds, of however many versions; they are all rows if
no put lacks cells. -/
theorem session_rowCount (π : Type) [Pooling π] (versions : Nat) (steps : List Step)
    (table : String) :
    let start : Workspace π := { store := .keeping versions }
    let w := (start.run steps).2
    let j := ({} : Journal).followAll (steps.zip (start.run steps).1)
    let results := w.store.scan { table } {}
    let found (n : Nat) : Set Bytes :=
      {key | (w.store.get { table } (Get.withMaxVersions { row := key } n)).isEmpty = false}
    let hollow : Set Bytes := {key | j.puts table key ≠ [] ∧ ∀ p ∈ j.puts table key, p.cells = []}
    (results.map (·.row)).Nodup ∧
      (∀ n, (∀ key, key ∈ results.map (·.row) ↔ key ∈ found n) ∧
        (found n).Finite ∧ results.length = (found n).ncard) ∧
      (hollow.Finite ∧ w.store.rowCount table = results.length + hollow.ncard) ∧
      (w.store.rowCount table = results.length ↔ hollow = ∅) ∧
      ((∀ name puts, .put name puts ∈ steps → ∀ p ∈ puts, p.cells ≠ []) → hollow = ∅) := by
  intro start w j results found hollow
  have hfollows : w.Follows (max 1 versions) j := (follows_keeping versions).run steps
  have hkeys : w.store.HasKeys j :=
    (follows_keeping versions).hasKeys_run (fun _ _ => by simp [Journal.puts]; rfl) steps
  have hnone : ∀ key, (∀ c, (w.store.table table).versions key c = []) ↔
      ∀ p ∈ j.puts table key, p.cells = [] := by
    intro key
    rw [← j.history_eq_nil_iff]
    refine forall_congr' fun c => ?_
    show w.store.versions table key c = [] ↔ _
    rw [hfollows.store.versions_eq, List.take_eq_nil_iff]
    have hpos : max 1 versions ≠ 0 := by omega
    simp [hpos]
  have hfound : ∀ n key, key ∈ results.map (·.row) ↔ key ∈ found n := by
    intro n key
    have hget := (w.store.table table).get_isEmpty_iff
      (show 0 < (Get.withMaxVersions { row := key } n).maxVersions from Nat.le_max_right n 1)
    show _ ↔ ((w.store.table table).get _).isEmpty = false
    rw [← Bool.not_eq_true, hget]
    refine ((w.store.table table).mem_scan_iff key).trans ?_
    simp [Get.withMaxVersions, Get.Asks]
  obtain ⟨hfinite, hcount⟩ := length_eq_ncard (w.store.table table).nodup_hollowKeys
    (s := hollow) fun key => by
      rw [Table.mem_hollowKeys_iff, hkeys table key, hnone key]
      rfl
  have hnodup := (w.store.table table).nodup_scan {}
  have hsize : w.store.rowCount table = results.length + hollow.ncard := by
    rw [← hcount]
    exact (w.store.table table).size_eq
  refine ⟨hnodup, fun n => ⟨hfound n, ?_⟩, ⟨hfinite, hsize⟩, ?_, fun hfilled => ?_⟩
  · have hall := length_eq_ncard hnodup (s := found n) fun key => (hfound n key).symm
    rwa [List.length_map] at hall
  · rw [hsize, ← Set.ncard_eq_zero hfinite]
    omega
  · have honly : j.OnlyPuts fun p => p.cells ≠ [] := by
      refine Journal.OnlyPuts.empty.followAll _ fun e he name puts hput => ?_
      exact hfilled name puts (hput ▸ (List.of_mem_zip he).1)
    refine Set.eq_empty_iff_forall_notMem.2 fun key hkey => ?_
    obtain ⟨p, hp⟩ := List.exists_mem_of_ne_nil _ hkey.1
    exact honly.of_mem_puts hp (hkey.2 p hp)

/-- Two rows with cells, of which one is deleted again. -/
theorem session_rowCount_filled :
    let column : Column := ⟨[102], [113]⟩
    let steps : List Step := [.createTable "t", .openTable "t" "h",
      .put "h" [⟨[97], [(column, [1])]⟩, ⟨[98], [(column, [2])]⟩], .flush "h", .delete "h" [[97]]]
    let w := (({ store := .keeping 3 } : Workspace).run steps).2
    (∀ name puts, .put name puts ∈ steps → ∀ p ∈ puts, p.cells ≠ []) ∧
      w.store.rowCount "t" = (w.store.scan { table := "t" } {}).length ∧
      w.store.rowCount "t" = 1 := by
  intro column steps w
  have hfilled : ∀ name puts, .put name puts ∈ steps → ∀ p ∈ puts, p.cells ≠ [] := by
    simp [steps]
  obtain ⟨-, -, -, hequal, hnone⟩ := session_rowCount Pool 3 steps "t"
  exact ⟨hfilled, hequal.2 (hnone hfilled), by decide +kernel⟩

/-- A put without cells is counted as a row, but neither a get nor a scan returns it. -/
theorem rowCount_hollow :
    let steps : List Step :=
      [.createTable "t", .openTable "t" "h", .put "h" [⟨[114], []⟩], .flush "h"]
    let w := (({} : Workspace).run steps).2
    w.store.rowCount "t" = 1 ∧ w.store.scan { table := "t" } {} = [] ∧
      (w.store.get { table := "t" } { row := [114] }).isEmpty = true := by
  decide +kernel

end Workspace

end ColumnConnector
