import ColumnConnector.Proofs.Store.Checkout
import ColumnConnector.Proofs.Store.Journal
import ColumnConnector.Proofs.Store.Reading

/-!
# Sessions and their journals

A session with a store is a list of requests through named handles.  Whatever the requests and
their order, the store holds of every column the newest entries of its history in the journal of the
session, and every get is answered from these entries alone.

One request keeps store and journal in step (`Workspace.Follows.step`); a session is one request
after the other.
-/

namespace ColumnConnector

/-! ### Histories and prepended versions -/

theorem take_cons_take {α : Type} (n : Nat) (a : α) (l : List α) :
    (a :: l.take n).take n = (a :: l).take n := by
  cases n with
  | zero => rfl
  | succ n => simp [List.take_take]

/-- Prepending cells one by one keeps the newest entries of the list of all of them. -/
theorem View.foldl_prepend_take (limit : Nat) (time : Int64) (key : Bytes) (v : View)
    (cells : List (Column × Bytes)) (column : Column) (l : Versions)
    (h : v key column = l.take limit) :
    cells.foldl (View.prepend limit time key) v key column =
      (((cells.filter fun cell => cell.1 = column).map fun cell => (time, cell.2)).reverse ++
        l).take limit := by
  induction cells generalizing v l with
  | nil => exact h
  | cons cell rest ih =>
    by_cases hc : cell.1 = column
    · have hv : View.prepend limit time key v cell key column =
          ((time, cell.2) :: l).take limit := by
        simp [View.prepend, hc, h, take_cons_take]
      rw [List.foldl_cons, ih _ _ hv, List.filter_cons_of_pos (by simpa using hc)]
      simp
    · have hv : View.prepend limit time key v cell key column = l.take limit := by
        simp [View.prepend, Ne.symm hc, h]
      rw [List.foldl_cons, ih _ _ hv, List.filter_cons_of_neg (by simpa using hc)]

/-! ### The store -/

namespace Store

/-- The store holds what the journal says, of each column the newest `limit` versions. -/
structure Follows (s : Store) (limit : Nat) (j : Journal) : Prop where
  limit_eq : s.maxVersions = limit
  clock_eq : s.clock = j.clock
  contains_iff : ∀ table, s.tables.contains table = true ↔ table ∈ j.tables
  versions_eq : ∀ table key column,
    s.versions table key column = (j.history table key column).take limit

theorem contains_setTable (s : Store) (name : String) (f : Table → Table) (table : String) :
    (s.setTable name f).tables.contains table = true ↔
      table = name ∨ s.tables.contains table = true := by
  unfold SortedMap.contains
  rw [get?_setTable]
  by_cases h : table = name <;> simp [h]

namespace Follows

variable {s : Store} {limit : Nat} {j : Journal}

theorem setTime (h : s.Follows limit j) (now : Int64) (later : List Int64) :
    (s.setTime now later).Follows limit { j with clock := { j.clock with now, later } } where
  limit_eq := h.limit_eq
  clock_eq := by rw [Store.setTime, h.clock_eq]
  contains_iff := h.contains_iff
  versions_eq := h.versions_eq

/-- A store does not depend on who holds a handle. -/
theorem hold (h : s.Follows limit j) (name : String) (handle : Option Handle) :
    s.Follows limit (j.hold name handle) :=
  ⟨h.limit_eq, h.clock_eq, h.contains_iff, h.versions_eq⟩

theorem createTable (h : s.Follows limit j) (name : String) :
    (s.createTable name).Follows limit { j with tables := name :: j.tables } where
  limit_eq := h.limit_eq
  clock_eq := h.clock_eq
  contains_iff := fun table => by
    have hcontains : (s.createTable name).tables.contains table = true ↔
        table = name ∨ s.tables.contains table = true := by
      unfold Store.createTable SortedMap.contains
      rw [SortedMap.get?_upsert_eq]
      by_cases ht : table = name <;> simp [ht]
    rw [hcontains, h.contains_iff, List.mem_cons]
  versions_eq := fun table key column => by
    rw [versions_createTable]
    exact h.versions_eq table key column

theorem commit (h : s.Follows limit j) {table : String} (ht : table ∈ j.tables) (p : Put) :
    (s.commit table p).Follows limit (Journal.write table j p) where
  limit_eq := h.limit_eq
  clock_eq := congrArg Clock.tick h.clock_eq
  contains_iff := fun other => by
    have hcontains : (s.commit table p).tables.contains other = true ↔
        other = table ∨ s.tables.contains other = true :=
      contains_setTable s table (Table.write s.maxVersions s.clock.next · p) other
    rw [hcontains, h.contains_iff]
    exact ⟨fun ho => ho.elim (fun e => e ▸ ht) id, .inr⟩
  versions_eq := fun other key column => by
    rw [Journal.history_write]
    by_cases ho : other = table
    · subst ho
      rw [versions_commit, h.limit_eq, h.clock_eq, View.put]
      by_cases hk : key = p.row
      · subst hk
        rw [View.foldl_prepend_take _ _ _ _ _ _ _ (h.versions_eq other p.row column)]
        simp [Event.versions]
      · rw [View.foldl_prepend_other _ _ _ _ _ _ hk, h.versions_eq]
        simp [Event.versions, hk]
    · have hother : (s.commit table p).versions other key column = s.versions other key column := by
        unfold versions
        rw [table_eq_of_get? (get?_commit_other s p ho)]
      rw [hother, h.versions_eq]
      simp [Event.versions, ho]

theorem flush (h : s.Follows limit j) {handle : Handle} (ht : handle.table ∈ j.tables) :
    (s.flush handle).Follows limit (handle.pending.foldl (Journal.write handle.table) j) := by
  unfold Store.flush
  induction handle.pending generalizing s j with
  | nil => exact h
  | cons p rest ih => exact ih (h.commit ht p) ht

theorem delete (h : s.Follows limit j) {handle : Handle} (ht : handle.table ∈ j.tables)
    (keys : List Bytes) :
    (s.delete handle keys).Follows limit (keys.foldl (Journal.remove handle.table) j) := by
  obtain ⟨-, htables, hclock⟩ := Journal.foldl_remove_frame handle.table keys j
  refine ⟨h.limit_eq, ?_, fun other => ?_, fun other key column => ?_⟩
  · rw [hclock]
    exact h.clock_eq
  · have hcontains : (s.delete handle keys).tables.contains other = true ↔
        other = handle.table ∨ s.tables.contains other = true :=
      contains_setTable s handle.table _ other
    rw [hcontains, h.contains_iff, htables]
    exact ⟨fun ho => ho.elim (fun e => e ▸ ht) id, .inr⟩
  · rw [Journal.history_foldl_remove]
    by_cases ho : other = handle.table
    · subst ho
      rw [versions_delete, h.versions_eq]
      by_cases hk : key ∈ keys <;> simp [hk]
    · have hother : (s.delete handle keys).versions other key column =
          s.versions other key column := by
        unfold versions
        rw [table_eq_of_get? (get?_delete_other s handle keys ho)]
      rw [hother, h.versions_eq, if_neg fun hand => ho hand.1]

end Follows

end Store

/-! ### Handles -/

namespace Workspace

variable {π : Type}

theorem get?_update (w : Workspace π) (name : String) (held : Held) (h : Handle) (n : String) :
    (w.update name held h).handles.get? n =
      if n = name then some { held with handle := h } else w.handles.get? n :=
  SortedMap.get?_insert_eq w.handles name n _

variable [Pooling π]

/-- Every handle, in use or idle in a pool, is on one of the tables. -/
structure HandlesOn (w : Workspace π) (tables : List String) : Prop where
  held : ∀ name held, w.handles.get? name = some held → held.handle.table ∈ tables
  idle : ∀ pool p, w.pools.get? pool = some p → ∀ h ∈ (Pooling.status p).idle, h.table ∈ tables

theorem drop_store (w : Workspace π) (name : String) : (w.drop name).store = w.store := by
  unfold drop
  split
  · rfl
  · dsimp only
    split <;> rfl

theorem get?_drop (w : Workspace π) (name n : String) :
    (w.drop name).handles.get? n = if n = name then none else w.handles.get? n := by
  unfold drop
  split
  · next hnone => by_cases hn : n = name <;> simp [hn, hnone]
  · dsimp only
    split <;> exact SortedMap.get?_erase w.handles name n

theorem get?_hold (w : Workspace π) (name : String) (held : Held) (n : String) :
    (w.hold name held).handles.get? n = if n = name then some held else w.handles.get? n := by
  unfold hold
  dsimp only
  rw [SortedMap.get?_insert_eq, get?_drop]
  by_cases hn : n = name <;> simp [hn]

namespace HandlesOn

variable {w : Workspace π} {tables : List String}

theorem mono {tables' : List String} (h : w.HandlesOn tables) (hsub : tables ⊆ tables') :
    w.HandlesOn tables' where
  held := fun name held hget => hsub (h.held name held hget)
  idle := fun pool p hget i hi => hsub (h.idle pool p hget i hi)

/-- The pool under a name is replaced by one whose idle handles are on the tables. -/
theorem insertPool (h : w.HandlesOn tables) {name : String} {p : π} {handles}
    (hp : ∀ i ∈ (Pooling.status p).idle, i.table ∈ tables)
    (hhandles : ∀ n held, handles.get? n = some held → held.handle.table ∈ tables) :
    { w with handles := handles, pools := w.pools.insert name p }.HandlesOn tables where
  held := hhandles
  idle := fun pool p' hget => by
    rw [SortedMap.get?_insert_eq] at hget
    by_cases hn : pool = name
    · rw [if_pos hn] at hget
      cases hget
      exact hp
    · rw [if_neg hn] at hget
      exact h.idle pool p' hget

theorem drop (h : w.HandlesOn tables) (name : String) : (w.drop name).HandlesOn tables := by
  have hheld : ∀ n held, (w.handles.erase name).get? n = some held →
      held.handle.table ∈ tables := fun n held hget => by
    rw [SortedMap.get?_erase] at hget
    by_cases hn : n = name
    · rw [if_pos hn] at hget
      cases hget
    · rw [if_neg hn] at hget
      exact h.held n held hget
  unfold Workspace.drop
  split
  · exact h
  · next held hget =>
    dsimp only
    split
    · exact ⟨hheld, h.idle⟩
    · next pool p hhome =>
      refine h.insertPool (fun i hi => ?_) hheld
      obtain ⟨home, -, hpool⟩ := Option.bind_eq_some_iff.1 hhome
      obtain ⟨p', hp', he⟩ := Option.map_eq_some_iff.1 hpool
      cases he
      rcases Pooling.mem_idle_release hi with hold | rfl
      · exact h.idle _ _ hp' i hold
      · exact h.held name held hget

theorem insertHandle (h : w.HandlesOn tables) {name : String} {held : Held}
    (ht : held.handle.table ∈ tables) :
    { w with handles := w.handles.insert name held }.HandlesOn tables where
  held := fun n held' hget => by
    rw [SortedMap.get?_insert_eq] at hget
    by_cases hn : n = name
    · rw [if_pos hn] at hget
      cases hget
      exact ht
    · rw [if_neg hn] at hget
      exact h.held n held' hget
  idle := h.idle

theorem hold (h : w.HandlesOn tables) (name : String) {held : Held}
    (ht : held.handle.table ∈ tables) : (w.hold name held).HandlesOn tables :=
  (h.drop name).insertHandle ht

theorem update (h : w.HandlesOn tables) (name : String) (held : Held) {handle : Handle}
    (ht : handle.table ∈ tables) : (w.update name held handle).HandlesOn tables :=
  h.insertHandle ht

theorem setPool (h : w.HandlesOn tables) (name table : String) (maxSize : Nat) :
    (w.setPool name (Pooling.ofSize table maxSize)).HandlesOn tables := by
  refine h.insertPool (fun i hi => ?_) fun n held hget => ?_
  · rw [Pooling.ofSize, Pooling.status_build] at hi
    exact absurd hi List.not_mem_nil
  rw [SortedMap.get?_mapValues] at hget
  obtain ⟨old, hold, rfl⟩ := Option.map_eq_some_iff.1 hget
  have hmem := h.held n old hold
  split <;> exact hmem

end HandlesOn

/-- The workspace is where the journal says it is. -/
structure Follows (w : Workspace π) (limit : Nat) (j : Journal) : Prop where
  store : w.store.Follows limit j
  held_eq : ∀ name, (w.handles.get? name).map (·.handle) = j.held name
  onTables : w.HandlesOn j.tables

namespace Follows

variable {w : Workspace π} {limit : Nat} {j : Journal}

theorem table_mem (h : w.Follows limit j) {name : String} {held : Held}
    (hget : w.handles.get? name = some held) : held.handle.table ∈ j.tables :=
  h.onTables.held name held hget

theorem hold (h : w.Follows limit j) (name : String) {held : Held}
    (ht : held.handle.table ∈ j.tables) :
    (w.hold name held).Follows limit (j.hold name (some held.handle)) where
  store := by
    have hs : (w.hold name held).store = w.store := drop_store w name
    rw [hs]
    exact h.store.hold name _
  held_eq := fun n => by
    rw [get?_hold, Journal.held_hold]
    by_cases hn : n = name
    · simp [hn]
    · simp [hn, h.held_eq]
  onTables := h.onTables.hold name ht

theorem update (h : w.Follows limit j) (name : String) (held : Held) {handle : Handle}
    (ht : handle.table ∈ j.tables) :
    (w.update name held handle).Follows limit (j.hold name (some handle)) where
  store := h.store.hold name _
  held_eq := fun n => by
    rw [get?_update, Journal.held_hold]
    by_cases hn : n = name
    · simp [hn]
    · simp [hn, h.held_eq]
  onTables := h.onTables.update name held ht

theorem drop (h : w.Follows limit j) (name : String) :
    (w.drop name).Follows limit (j.hold name none) where
  store := by
    rw [drop_store]
    exact h.store.hold name none
  held_eq := fun n => by
    rw [get?_drop, Journal.held_hold]
    by_cases hn : n = name
    · simp [hn]
    · simp [hn, h.held_eq]
  onTables := h.onTables.drop name

/-- The store changes and the journal with it; the handles stay. -/
theorem withStore (h : w.Follows limit j) {s : Store} {j' : Journal} (hs : s.Follows limit j')
    (hheld : j'.held = j.held) (htables : j.tables ⊆ j'.tables) :
    { w with store := s }.Follows limit j' where
  store := hs
  held_eq := by
    rw [hheld]
    exact h.held_eq
  onTables := ⟨(h.onTables.mono htables).held, (h.onTables.mono htables).idle⟩

/-- A request through a name reaches the handle that the journal has under it. -/
theorem through (h : w.Follows limit j) (name : String) {f : Held → Answer π × Workspace π}
    {g : Handle → Journal}
    (hf : ∀ held, w.handles.get? name = some held → (f held).2.Follows limit (g held.handle)) :
    (w.withHandle name f).2.Follows limit (j.through name g) := by
  rw [withHandle, Journal.through, ← h.held_eq name]
  cases hget : w.handles.get? name with
  | none => exact h
  | some held => exact hf held hget

/-- A request through a name that leaves everything in step. -/
theorem withHandle (h : w.Follows limit j) (name : String) {f : Held → Answer π × Workspace π}
    (hf : ∀ held, (f held).2.Follows limit j) : (w.withHandle name f).2.Follows limit j := by
  unfold Workspace.withHandle
  split
  · exact h
  · exact hf _

theorem openTable (h : w.Follows limit j) (table name : String) :
    (w.openTable table name).2.Follows limit
      (if table ∈ j.tables then j.hold name (some { table }) else j) := by
  unfold Workspace.openTable Store.openTable
  by_cases ht : table ∈ j.tables
  · rw [if_pos ((h.store.contains_iff table).2 ht), if_pos ht]
    exact Follows.hold h name (show (⟨{ table }, none⟩ : Held).handle.table ∈ j.tables from ht)
  · rw [if_neg fun hc => ht ((h.store.contains_iff table).1 hc), if_neg ht]
    exact h

theorem put (h : w.Follows limit j) {name : String} {held : Held}
    (hget : w.handles.get? name = some held) (puts : List Put) :
    (w.put name held puts).2.Follows limit
      (if puts.any fun p => p.row.isEmpty then j
       else j.hold name (some { held.handle with pending := held.handle.pending ++ puts })) := by
  unfold Workspace.put Handle.buffer
  by_cases hempty : (puts.any fun p => p.row.isEmpty) = true
  · rw [if_pos hempty, if_pos hempty]
    exact h
  · rw [if_neg hempty, if_neg hempty]
    exact h.update name held (h.table_mem hget)

theorem flush (h : w.Follows limit j) {name : String} {held : Held}
    (hget : w.handles.get? name = some held) :
    ({ w with store := w.store.flush held.handle }.update name held held.handle.cleared).Follows
      limit ((held.handle.pending.foldl (Journal.write held.handle.table) j).hold name
        (some { held.handle with pending := [] })) := by
  have ht := h.table_mem hget
  obtain ⟨hheld, htables⟩ :=
    Journal.foldl_write_frame held.handle.table held.handle.pending j
  refine (h.withStore (h.store.flush ht) hheld (htables ▸ List.Subset.refl _)).update name held ?_
  rw [htables]
  exact ht

theorem delete (h : w.Follows limit j) {name : String} {held : Held}
    (hget : w.handles.get? name = some held) (keys : List Bytes) :
    { w with store := w.store.delete held.handle keys }.Follows limit
      (keys.foldl (Journal.remove held.handle.table) j) := by
  obtain ⟨hheld, htables, -⟩ := Journal.foldl_remove_frame held.handle.table keys j
  exact h.withStore (h.store.delete (h.table_mem hget) keys) hheld (htables ▸ List.Subset.refl _)

theorem checkout (h : w.Follows limit j) {pool name : String} {p : π}
    (hpool : w.pools.get? pool = some p) :
    (w.checkout pool p name).2.Follows limit
      (j.follow (.checkout pool name) (w.checkout pool p name).1) := by
  obtain ⟨outcome, p', heq, hchecks⟩ := Pooling.checkout_checks p w.store
  have hw : { w with pools := w.pools.insert pool p' }.Follows limit j :=
    ⟨h.store, h.held_eq, h.onTables.insertPool
      (fun i hi => h.onTables.idle pool p hpool i (hchecks.idle_subset hi)) h.onTables.held⟩
  rw [Workspace.checkout, heq]
  cases outcome with
  | refused e => exact hw
  | waiting => exact hw
  | granted handle =>
    have ht : handle.table ∈ j.tables := by
      rcases hchecks.table_of_granted with ⟨i, hi, hit⟩ | ⟨-, hcontains⟩
      · exact hit ▸ h.onTables.idle pool p hpool i hi
      · exact (h.store.contains_iff _).1 hcontains
    have hhandle : handle = { table := handle.table } := by
      rw [← hchecks.pending_eq_nil]
    have hheld := hw.hold name (show (⟨handle, some pool⟩ : Held).handle.table ∈ j.tables from ht)
    rw [hhandle] at hheld ⊢
    exact hheld

/-- One request keeps workspace and journal in step. -/
theorem step (h : w.Follows limit j) (step : Step) :
    (w.step step).2.Follows limit (j.follow step (w.step step).1) := by
  cases step with
  | setTime now later => exact h.withStore (h.store.setTime now later) rfl (List.Subset.refl _)
  | createTable table =>
    exact h.withStore (h.store.createTable table) rfl (List.subset_cons_self table _)
  | rowCount table => exact h
  | dump table =>
    unfold Workspace.step
    dsimp only
    split <;> exact h
  | openTable table name => exact h.openTable table name
  | put name puts => exact h.through name fun held hget => h.put hget puts
  | flush name => exact h.through name fun held hget => h.flush hget
  | discard name => exact h.through name fun held hget => h.update name held (h.table_mem hget)
  | get name request => exact h.withHandle name fun _ => h
  | delete name keys => exact h.through name fun held hget => h.delete hget keys
  | scan name request => exact h.withHandle name fun _ => h
  | openScan name request scan =>
    exact h.withHandle name fun _ => ⟨h.store, h.held_eq, h.onTables.held, h.onTables.idle⟩
  | next scan =>
    unfold Workspace.step
    dsimp only
    split
    · exact h
    · exact h
    · exact ⟨h.store, h.held_eq, h.onTables.held, h.onTables.idle⟩
  | close scan =>
    unfold Workspace.step
    dsimp only
    split
    · exact h
    · exact ⟨h.store, h.held_eq, h.onTables.held, h.onTables.idle⟩
  | openPool table maxSize pool =>
    refine ⟨h.store, fun name => ?_, h.onTables.setPool pool table maxSize⟩
    have hheld : (w.setPool pool (Pooling.ofSize table maxSize)).handles.get? name =
        (w.handles.get? name).map fun held =>
          if held.home = some pool then { held with home := none } else held :=
      SortedMap.get?_mapValues w.handles _ name
    calc ((w.setPool pool (Pooling.ofSize table maxSize)).handles.get? name).map (·.handle)
        = (w.handles.get? name).map (·.handle) := by
          rw [hheld, Option.map_map]
          congr 1
          funext held
          simp only [Function.comp]
          split <;> rfl
      _ = j.held name := h.held_eq name
  | checkout pool name =>
    unfold Workspace.step withPool
    dsimp only
    split
    · exact h
    · next p hpool => exact h.checkout hpool
  | release name => exact h.drop name
  | closePool pool =>
    unfold Workspace.step withPool
    dsimp only
    split
    · exact h
    · refine ⟨h.store, h.held_eq, h.onTables.insertPool (fun i hi => ?_) h.onTables.held⟩
      rw [Pooling.status_close] at hi
      exact absurd hi List.not_mem_nil

/-- A whole session keeps workspace and journal in step. -/
theorem run (h : w.Follows limit j) (steps : List Step) :
    (w.run steps).2.Follows limit (j.followAll (steps.zip (w.run steps).1)) := by
  induction steps generalizing w j with
  | nil => exact h
  | cons s rest ih => exact ih (h.step s)

end Follows

end Workspace

end ColumnConnector
