import ColumnConnector.Proofs.Store.Requests
import ColumnConnector.Proofs.Store.Timestamps

/-!
# The timestamps of flushed puts

A flush stamps its puts one after the other, and for each of them the clock reads the time of day
(`Clock.reading`).  It may be another one each time, it may jump back or lie before the epoch.

`Flushed` is a put as it is flushed, together with the clock that stamps it.  Each clock goes on
from the timestamp that the one before has given (`Gave`), whatever else is asked of the store in
between.  So the timestamps ascend, and with them those of the stored versions, which are some of
the stamped cells, the last ones first (`Store.Traces`).
-/

namespace ColumnConnector

/-! ### Readings -/

namespace Clock

/-- The time of day that is read for the timestamp after `i` others. -/
def reading (c : Clock) (i : Nat) : Int64 := (c.now :: c.later).getD i (c.later.getLastD c.now)

theorem reading_zero (c : Clock) : c.reading 0 = c.now := rfl

theorem reading_tick (c : Clock) (i : Nat) : c.tick.reading i = c.reading (i + 1) := by
  obtain ⟨now, later, last⟩ := c
  cases later with
  | nil => cases i <;> rfl
  | cons t rest =>
    show (t :: rest).getD i (rest.getLastD t) = (t :: rest).getD i ((t :: rest).getLastD now)
    rw [List.getLastD_cons]

/-- Of each of as many times of day as there are puts, one is read for each put. -/
theorem mapIdx_reading {α : Type} (now : Int64) (later : List Int64) (last : Int64) (l : List α)
    (hl : l.length ≤ later.length + 1) :
    (l.mapIdx fun i a => (a, reading ⟨now, later, last⟩ i)) = l.zip (now :: later) := by
  refine List.ext_getElem ?_ fun i hi hi' => ?_
  · simpa using hl
  · have hbound : i < (now :: later).length := by
      rw [List.length_zip] at hi'
      omega
    rw [List.getElem_mapIdx, List.getElem_zip, reading,
      List.getD_eq_getElem?_getD, List.getElem?_eq_getElem hbound, Option.getD_some]

end Clock

/-- A put that is flushed, with the clock that gives it its timestamp. -/
structure Flushed where
  table : String
  put : Put
  clock : Clock

namespace Flushed

def stamp (f : Flushed) : Int64 := f.clock.next

/-- The write as an event of a journal. -/
def event (f : Flushed) : Event := .written f.table f.stamp f.put

end Flushed

/-- Puts that are written one after the other, each with the clock that stamps it. -/
def Store.flushed (table : String) : Store → List Put → List Flushed
  | _, [] => []
  | s, p :: rest => ⟨table, p, s.clock⟩ :: flushed table (s.commit table p) rest

namespace Workspace

variable {π : Type}

/-- The puts that a request is to write, and the time of day that is read for each. -/
def due (w : Workspace π) : Step → List (Put × Int64)
  | .flush name => (w.handles.get? name).elim [] fun held =>
      held.handle.pending.mapIdx fun i p => (p, w.store.clock.reading i)
  | _ => []

/-- The puts that a request writes. -/
def flushedBy (w : Workspace π) : Step → List Flushed
  | .flush name => (w.handles.get? name).elim [] fun held =>
      w.store.flushed held.handle.table held.handle.pending
  | _ => []

/-- The puts that a session writes. -/
def flushedIn [Pooling π] : Workspace π → List Step → List Flushed
  | _, [] => []
  | w, s :: rest => w.flushedBy s ++ (w.step s).2.flushedIn rest

end Workspace

/-! ### What a clock gives out -/

/-- From one timestamp to another a clock stamped these puts, and gave out nothing else. -/
def Gave (last : Int64) (flushed : List Flushed) (last' : Int64) : Prop :=
  flushed.map (·.clock.last) ++ [last'] = last :: flushed.map Flushed.stamp

namespace Gave

variable {last last' last'' : Int64} {flushed later : List Flushed}

theorem nil (last : Int64) : Gave last [] last := rfl

theorem nil_iff : Gave last [] last' ↔ last' = last := by simp [Gave]

theorem cons_iff {f : Flushed} :
    Gave last (f :: later) last' ↔ f.clock.last = last ∧ Gave f.stamp later last' := by
  simp [Gave]

theorem append (h : Gave last flushed last') (h' : Gave last' later last'') :
    Gave last (flushed ++ later) last'' := by
  induction flushed generalizing last with
  | nil =>
    rw [nil_iff] at h
    rw [← h]
    exact h'
  | cons f rest ih =>
    obtain ⟨hlast, hrest⟩ := cons_iff.1 h
    exact cons_iff.2 ⟨hlast, ih hrest⟩

/-- While the clock has timestamps left, they ascend. -/
theorem ascending (h : Gave last flushed last')
    (hroom : ∀ f ∈ flushed, f.clock.last < Int64.maxValue) :
    (∀ f ∈ flushed, last.toInt < f.stamp.toInt) ∧
      flushed.Pairwise fun f later => f.stamp.toInt < later.stamp.toInt := by
  induction flushed generalizing last with
  | nil => exact ⟨List.forall_mem_nil _, .nil⟩
  | cons f rest ih =>
    obtain ⟨hlast, hrest⟩ := cons_iff.1 h
    obtain ⟨hf, hroom⟩ := List.forall_mem_cons.1 hroom
    obtain ⟨hafter, hpairs⟩ := ih hrest hroom
    have hnext : f.stamp.toInt = _ := f.clock.toInt_next (Int64.lt_iff_toInt_lt.1 hf)
    have hfirst : last.toInt < f.stamp.toInt := by
      rw [← hlast]
      omega
    refine ⟨List.forall_mem_cons.2 ⟨hfirst, fun g hg => ?_⟩, List.pairwise_cons.2 ⟨hafter, hpairs⟩⟩
    have := hafter g hg
    omega

end Gave

/-! ### What the store keeps of it -/

/-- Prepending cells adds none but these. -/
theorem View.foldl_prepend_sublist (limit : Nat) (time : Int64) (key : Bytes) (v : View)
    (cells : List (Column × Bytes)) (column : Column) :
    (cells.foldl (View.prepend limit time key) v key column).Sublist
      (((cells.filter fun cell => cell.1 = column).map fun cell => (time, cell.2)).reverse ++
        v key column) := by
  induction cells generalizing v with
  | nil => simp
  | cons cell rest ih =>
    refine (ih (View.prepend limit time key v cell)).trans ?_
    by_cases hc : cell.1 = column
    · have htake := ((time, cell.2) :: v key column).take_sublist limit
      simpa [View.prepend, hc] using htake
    · simp [View.prepend, hc, Ne.symm hc]

namespace Store

/-- A commit adds to the versions of a column what the put writes there, at most. -/
theorem versions_commit_sublist (s : Store) (name : String) (p : Put) (table : String)
    (key : Bytes) (column : Column) :
    ((s.commit name p).versions table key column).Sublist
      ((Event.written name s.clock.next p).versions table key column ++
        s.versions table key column) := by
  by_cases ht : table = name
  · subst ht
    rw [versions_commit, View.put]
    by_cases hk : key = p.row
    · subst hk
      simpa [Event.versions] using View.foldl_prepend_sublist s.maxVersions s.clock.next p.row
        (s.versions table) p.cells column
    · rw [View.foldl_prepend_other _ _ _ _ _ _ hk]
      exact List.sublist_append_right _ _
  · have hsame : (s.commit name p).versions table key column = s.versions table key column := by
      unfold versions
      rw [table_eq_of_get? (get?_commit_other s p ht)]
    rw [hsame]
    exact List.sublist_append_right _ _

/-- The versions of every column are cells of the flushed puts, the last ones first. -/
def Traces (s : Store) (flushed : List Flushed) : Prop :=
  ∀ table key column, (s.versions table key column).Sublist
    (flushed.reverse.flatMap fun f => f.event.versions table key column)

theorem traces_keeping (versions : Nat) : (keeping versions).Traces [] :=
  fun _ _ _ => List.nil_sublist _

namespace Traces

variable {s : Store} {flushed : List Flushed} (h : s.Traces flushed)
include h

theorem commit (table : String) (p : Put) :
    (s.commit table p).Traces (flushed ++ [⟨table, p, s.clock⟩]) := by
  intro table' key column
  rw [List.reverse_append, List.reverse_singleton, List.singleton_append, List.flatMap_cons]
  exact (versions_commit_sublist s table p table' key column).trans
    ((h table' key column).append_left _)

theorem foldl_commit (table : String) (puts : List Put) :
    (puts.foldl (·.commit table) s).Traces (flushed ++ s.flushed table puts) := by
  induction puts generalizing s flushed with
  | nil =>
    rw [Store.flushed, List.append_nil]
    exact h
  | cons p rest ih =>
    have hrest := ih (h.commit table p)
    rwa [List.append_assoc] at hrest

theorem createTable (name : String) : (s.createTable name).Traces flushed := by
  intro table key column
  rw [versions_createTable]
  exact h table key column

theorem delete (handle : Handle) (keys : List Bytes) : (s.delete handle keys).Traces flushed := by
  intro table key column
  by_cases ht : table = handle.table
  · rw [ht, versions_delete, ← ht]
    split
    · exact List.nil_sublist _
    · exact h table key column
  · have hsame : (s.delete handle keys).versions table key column =
        s.versions table key column := by
      unfold versions
      rw [table_eq_of_get? (get?_delete_other s handle keys ht)]
    rw [hsame]
    exact h table key column

end Traces

theorem gave_flushed (table : String) (s : Store) (puts : List Put) :
    Gave s.clock.last (s.flushed table puts) (puts.foldl (·.commit table) s).clock.last := by
  induction puts generalizing s with
  | nil => exact .nil _
  | cons p rest ih => exact Gave.cons_iff.2 ⟨rfl, ih (s.commit table p)⟩

/-- One time of day is read for each of the puts. -/
theorem map_flushed (table : String) (s : Store) (puts : List Put) :
    (s.flushed table puts).map (fun f => (f.put, f.clock.now)) =
      puts.mapIdx fun i p => (p, s.clock.reading i) := by
  induction puts generalizing s with
  | nil => rfl
  | cons p rest ih =>
    rw [flushed, List.map_cons, ih, List.mapIdx_cons]
    have hclock : (s.commit table p).clock = s.clock.tick := rfl
    simp only [hclock, Clock.reading_tick, Clock.reading_zero]

/-- The puts are written in order, each under its timestamp. -/
theorem table_foldl_commit (table : String) (s : Store) (puts : List Put) :
    (puts.foldl (·.commit table) s).table table = (s.flushed table puts).foldl
      (fun t f => t.write s.maxVersions f.stamp f.put) (s.table table) := by
  induction puts generalizing s with
  | nil => rfl
  | cons p rest ih =>
    have hfirst : (s.commit table p).table table =
        (s.table table).write s.maxVersions s.clock.next p := s.table_commit table p
    rw [List.foldl_cons, ih, hfirst]
    rfl

end Store

/-! ### Sessions -/

namespace Workspace

variable {π : Type} [Pooling π]

/-- A request takes as many timestamps as it writes puts. -/
theorem gave_flushedBy (w : Workspace π) (s : Step) :
    Gave w.store.clock.last (w.flushedBy s) (w.step s).2.store.clock.last := by
  rw [store_step]
  have hother : (w.storeAfter s).clock.last = w.store.clock.last →
      Gave w.store.clock.last [] (w.storeAfter s).clock.last := by
    intro hlast
    rw [Gave.nil_iff, hlast]
  cases s with
  | flush name =>
    rw [storeAfter, flushedBy]
    cases w.handles.get? name with
    | none => exact .nil _
    | some held => exact Store.gave_flushed _ _ _
  | delete name keys =>
    refine hother ?_
    rw [storeAfter]
    cases w.handles.get? name <;> rfl
  | _ => exact hother rfl

/-- A request adds to what is stored no cells but those of the puts that it writes. -/
theorem traces_step {w : Workspace π} {flushed : List Flushed} (h : w.store.Traces flushed)
    (s : Step) : (w.step s).2.store.Traces (flushed ++ w.flushedBy s) := by
  rw [store_step]
  have hother : (w.storeAfter s).Traces flushed → (w.storeAfter s).Traces (flushed ++ []) := by
    rw [List.append_nil]
    exact id
  cases s with
  | flush name =>
    rw [storeAfter, flushedBy]
    cases w.handles.get? name with
    | none => simpa using h
    | some held => exact h.foldl_commit _ _
  | createTable table => exact hother (h.createTable table)
  | delete name keys =>
    refine hother ?_
    rw [storeAfter]
    cases w.handles.get? name with
    | none => exact h
    | some held => exact h.delete held.handle keys
  | _ => exact hother h

theorem gave_flushedIn (w : Workspace π) (steps : List Step) :
    Gave w.store.clock.last (w.flushedIn steps) (w.run steps).2.store.clock.last := by
  induction steps generalizing w with
  | nil => exact .nil _
  | cons s rest ih => exact (w.gave_flushedBy s).append (ih _)

theorem traces_run (w : Workspace π) {flushed : List Flushed} (h : w.store.Traces flushed)
    (steps : List Step) : (w.run steps).2.store.Traces (flushed ++ w.flushedIn steps) := by
  induction steps generalizing w flushed with
  | nil =>
    rw [flushedIn, List.append_nil]
    exact h
  | cons s rest ih =>
    rw [flushedIn, ← List.append_assoc]
    exact ih _ (traces_step h s)

end Workspace

/-! ### Timestamps in order -/

/-- Of one put, a column has more than one version only if the put repeats the column. -/
theorem Flushed.versions_repeat (f : Flushed) (table : String) (key : Bytes) (column : Column) :
    (f.event.versions table key column).Pairwise fun v older =>
      older.1 = v.1 ∧ f.table = table ∧ f.put.row = key ∧ f.stamp = v.1 ∧
        [(column, older.2), (column, v.2)].Sublist f.put.cells := by
  refine List.pairwise_iff_forall_sublist.2 fun {v older} hsub => ?_
  simp only [Flushed.event, Event.versions] at hsub
  split at hsub
  case isFalse => simp at hsub
  case isTrue hat =>
    have hcells : [older, v].Sublist
        ((f.put.cells.filter fun cell => cell.1 = column).map fun cell => (f.stamp, cell.2)) := by
      simpa using hsub.reverse
    obtain ⟨cells, hkept, hmap⟩ := List.sublist_map_iff.1 hcells
    have hcolumn : ∀ cell ∈ cells, cell.1 = column := fun cell hc =>
      of_decide_eq_true (List.mem_filter.1 (hkept.subset hc)).2
    obtain ⟨a, b, rfl⟩ : ∃ a b, cells = [a, b] :=
      List.length_eq_two.1 (by simpa using (congrArg List.length hmap).symm)
    obtain ⟨rfl, rfl⟩ : older = (f.stamp, a.2) ∧ v = (f.stamp, b.2) := by simpa using hmap
    have ha : (column, a.2) = a := by rw [← hcolumn a (by simp)]
    have hb : (column, b.2) = b := by rw [← hcolumn b (by simp)]
    refine ⟨rfl, hat.1.symm, hat.2.symm, rfl, ?_⟩
    rw [ha, hb]
    exact hkept.trans List.filter_sublist

/-- While the timestamps of the flushed puts ascend, those of the stored versions descend, and stay
the same only where a put repeats a column. -/
theorem Store.Traces.descending {s : Store} {flushed : List Flushed} (h : s.Traces flushed)
    (hasc : flushed.Pairwise fun f later => f.stamp.toInt < later.stamp.toInt)
    (table : String) (key : Bytes) (column : Column) :
    (s.versions table key column).Pairwise fun v older => older.1 ≤ v.1 ∧
      (older.1 = v.1 → ∃ f ∈ flushed, f.table = table ∧ f.put.row = key ∧ f.stamp = v.1 ∧
        [(column, older.2), (column, v.2)].Sublist f.put.cells) := by
  refine List.Pairwise.sublist (h table key column) (List.pairwise_flatMap.2 ⟨?_, ?_⟩)
  · intro f hf
    refine (f.versions_repeat table key column).imp fun {v older} hsame => ?_
    obtain ⟨htime, hrest⟩ := hsame
    exact ⟨Int64.le_of_eq htime, fun _ => ⟨f, List.mem_reverse.1 hf, hrest⟩⟩
  · -- the versions of two puts are of two timestamps
    refine (List.pairwise_reverse.2 hasc).imp fun {later f} hlt v hv older holder => ?_
    have hnew : later.stamp = v.1 := Option.some.inj (Journal.time_of_mem_versions hv)
    have hold : f.stamp = older.1 := Option.some.inj (Journal.time_of_mem_versions holder)
    rw [hnew, hold] at hlt
    refine ⟨Int64.le_iff_toInt_le.2 (Int.le_of_lt hlt), fun heq => ?_⟩
    rw [heq] at hlt
    exact absurd hlt (Int.lt_irrefl _)

namespace Workspace

variable {π : Type}

/-- A request writes the puts that are due, at their times. -/
theorem map_flushedBy (w : Workspace π) (s : Step) :
    (w.flushedBy s).map (fun f => (f.put, f.clock.now)) = w.due s := by
  cases s with
  | flush name =>
    rw [flushedBy, due]
    cases w.handles.get? name with
    | none => rfl
    | some held => exact Store.map_flushed held.handle.table w.store held.handle.pending
  | _ => rfl

variable [Pooling π]

/-- Nothing is due of a handle whose puts were discarded. -/
theorem due_discard (w : Workspace π) (name : String) :
    (w.step (.discard name)).2.due (.flush name) = [] := by
  show ((w.withHandle name _).2.handles.get? name).elim [] _ = []
  rw [withHandle]
  cases hheld : w.handles.get? name with
  | none => simp [hheld]
  | some held => simp [update, SortedMap.get?_insert_eq, Handle.cleared]

/-- A rejected put leaves no trace. -/
theorem put_failed {w : Workspace π} {name : String} {puts : List Put} {e : StoreError}
    (h : (w.step (.put name puts)).1 = .failed e) : (w.step (.put name puts)).2 = w := by
  simp only [step, withHandle] at h ⊢
  cases hheld : w.handles.get? name with
  | none => rfl
  | some held =>
    simp only [hheld, put] at h ⊢
    cases hb : held.handle.buffer puts with
    | error e' => rfl
    | ok h' =>
      rw [hb] at h
      cases h

/-- Every flushed put gets one timestamp, which is later than all before it on any handle or table
and not before the time of day that is read for it, and nothing else gets one.  So the versions of a
column are stored in the order of their timestamps, equal ones only where a put repeats the
column. -/
theorem session_stamps_ascend (π : Type) [Pooling π] (versions : Nat) (steps : List Step) :
    let start : Workspace π := { store := .keeping versions }
    let flushed := start.flushedIn steps
    let w := (start.run steps).2
    (∀ f ∈ flushed, f.clock.last < Int64.maxValue) →
    -- one timestamp for each put, starting from zero
    (flushed.map (·.clock.last) ++ [w.store.clock.last] = 0 :: flushed.map Flushed.stamp ∧
      (flushed.Pairwise fun f later => f.stamp < later.stamp) ∧
      ∀ f ∈ flushed, f.clock.now ≤ f.stamp ∧
        f.stamp.toInt = max (max f.clock.now.toInt 0) (f.clock.last.toInt + 1)) ∧
    -- whatever is requested next, the puts that are due take the next timestamps
    (∀ s, (w.flushedBy s).map (fun f => (f.put, f.clock.now)) = w.due s ∧
      (w.flushedBy s).map (·.clock.last) ++ [(w.step s).2.store.clock.last] =
        w.store.clock.last :: (w.flushedBy s).map Flushed.stamp) ∧
    (∀ name held, w.handles.get? name = some held →
      (w.step (.flush name)).2.store.table held.handle.table =
        (w.flushedBy (.flush name)).foldl
          (fun t f => t.write w.store.maxVersions f.stamp f.put)
          (w.store.table held.handle.table)) ∧
    -- at any times of day, one for each of them
    (∀ name held now later, w.handles.get? name = some held →
      held.handle.pending.length ≤ later.length + 1 →
      (w.step (.setTime now later)).2.due (.flush name) =
        held.handle.pending.zip (now :: later)) ∧
    -- and none is due of what was discarded or rejected
    (∀ name, (w.step (.discard name)).2.due (.flush name) = []) ∧
    (∀ name puts e, (w.step (.put name puts)).1 = .failed e →
      (w.step (.put name puts)).2 = w) ∧
    ∀ table key column, (w.store.versions table key column).Pairwise fun v older =>
      older.1 ≤ v.1 ∧
        (older.1 = v.1 → ∃ f ∈ flushed, f.table = table ∧ f.put.row = key ∧ f.stamp = v.1 ∧
          [(column, older.2), (column, v.2)].Sublist f.put.cells) := by
  intro start flushed w hroom
  have hgave : Gave 0 flushed w.store.clock.last := gave_flushedIn start steps
  have htraces : w.store.Traces flushed := start.traces_run (Store.traces_keeping versions) steps
  have hasc := (hgave.ascending hroom).2
  refine ⟨⟨hgave, hasc.imp Int64.lt_iff_toInt_lt.2, fun f hf => ?_⟩,
    fun s => ⟨w.map_flushedBy s, w.gave_flushedBy s⟩, fun name held hheld => ?_,
    fun name held now later hheld hlength => ?_, w.due_discard, fun _ _ _ => put_failed,
    htraces.descending hasc⟩
  · have hnext : f.stamp.toInt = _ := f.clock.toInt_next (Int64.lt_iff_toInt_lt.1 (hroom f hf))
    exact ⟨Int64.le_iff_toInt_le.2 (by omega), hnext⟩
  · rw [store_step, storeAfter, flushedBy, hheld]
    exact Store.table_foldl_commit held.handle.table w.store held.handle.pending
  · show ((w.handles.get? name).elim [] _) = _
    rw [hheld]
    exact Clock.mapIdx_reading now later _ held.handle.pending hlength

/-- Two tables are written by turns while the time of day jumps back; a put repeats its column. -/
theorem session_stamps_ascend_by_turns :
    let column : Column := ⟨[102], [113]⟩
    let steps : List Step := [.createTable "t", .createTable "u", .openTable "t" "h",
      .openTable "u" "g", .put "h" [⟨[97], [(column, [1]), (column, [2])]⟩],
      .put "g" [⟨[97], [(column, [3])]⟩], .put "h" [⟨[97], [(column, [4])]⟩],
      .setTime (-5) [100, 7], .flush "h", .flush "g"]
    let start : Workspace := { store := .keeping 3 }
    let flushed := start.flushedIn steps
    let w := (start.run steps).2
    (∀ f ∈ flushed, f.clock.last < Int64.maxValue) ∧
      flushed.map (·.clock.last) ++ [w.store.clock.last] = 0 :: flushed.map Flushed.stamp ∧
      flushed.map (·.clock.now) = [-5, 100, 7] ∧ flushed.map Flushed.stamp = [1, 100, 101] ∧
      w.store.versions "t" [97] column = [(100, [4]), (1, [2]), (1, [1])] := by
  intro column steps start flushed w
  have hroom : ∀ f ∈ flushed, f.clock.last < Int64.maxValue := by
    decide +kernel
  obtain ⟨⟨hchain, -⟩, -⟩ := session_stamps_ascend Pool 3 steps hroom
  exact ⟨hroom, hchain, by decide +kernel, by decide +kernel, by decide +kernel⟩

end Workspace

end ColumnConnector
