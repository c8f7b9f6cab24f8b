import ColumnConnector.Proofs.Store.Answers
import ColumnConnector.Proofs.Store.Scanning
import Mathlib.Data.List.Infix
import Mathlib.Data.List.TakeWhile

/-!
# The first version and the latest

A result has two ways to the newest version of a column: the first of its versions in store order,
and the one of the greatest timestamp, the last of several.  They part where several versions share
the greatest timestamp.  `StoreResult.front` are these versions; the first accessor takes the first
of them and the other the last (`StoreResult.columnLatest_eq`).

Versions share a timestamp when one put names the column more than once.  So after any session the
front of a column is what the last write to it wrote there, as far as it is kept and returned
(`get_front_eq_lastWrite`).
-/

namespace ColumnConnector

/-! ### Versions of one time -/

namespace KeyValue

/-- The versions at the front that share the timestamp of the first. -/
def front : List KeyValue → List KeyValue
  | [] => []
  | kv :: rest => kv :: rest.takeWhile fun other => other.timestamp = kv.timestamp

theorem head?_front (cells : List KeyValue) : (front cells).head? = cells.head? := by
  cases cells <;> rfl

theorem timestamp_of_mem_front {first kv : KeyValue} {rest : List KeyValue}
    (h : kv ∈ front (first :: rest)) : kv.timestamp = first.timestamp := by
  rcases List.mem_cons.1 h with rfl | htied
  · rfl
  · have htime := List.mem_takeWhile_imp (p := fun other : KeyValue =>
      decide (other.timestamp = first.timestamp)) htied
    exact of_decide_eq_true htime

/-- Behind the front all versions are older. -/
theorem lt_of_mem_dropWhile {first kv : KeyValue} {rest : List KeyValue}
    (h : (first :: rest).Pairwise fun a b => b.timestamp ≤ a.timestamp)
    (hkv : kv ∈ rest.dropWhile fun other => other.timestamp = first.timestamp) :
    kv.timestamp < first.timestamp := by
  induction rest with
  | nil => cases hkv
  | cons second rest ih =>
    obtain ⟨hfirst, hrest⟩ := List.pairwise_cons.1 h
    obtain ⟨hsecond, hlast⟩ := List.pairwise_cons.1 hrest
    rw [List.dropWhile_cons] at hkv
    split at hkv
    · refine ih (List.pairwise_cons.2 ⟨?_, hlast⟩) hkv
      intro other hother
      exact hfirst other (List.mem_cons_of_mem second hother)
    · next hne =>
      have hlt : second.timestamp < first.timestamp :=
        Int64.lt_of_le_of_ne (hfirst second List.mem_cons_self) (by simpa using hne)
      rcases List.mem_cons.1 hkv with rfl | hmem
      · exact hlt
      · exact Int64.lt_of_le_of_lt (hsecond kv hmem) hlt

/-- Of versions in order the latest is the last of those at the front. -/
theorem latest_eq_getLast?_front {cells : List KeyValue}
    (h : cells.Pairwise fun a b => b.timestamp ≤ a.timestamp) :
    latest cells = (front cells).getLast? := by
  cases cells with
  | nil => rfl
  | cons first rest =>
    have hne : front (first :: rest) ≠ [] := List.cons_ne_nil _ _
    let older := rest.dropWhile fun other => other.timestamp = first.timestamp
    have hsplit : first :: rest = front (first :: rest) ++ older := by
      rw [front, List.cons_append, List.takeWhile_append_dropWhile]
    have hlast := timestamp_of_mem_front (List.getLast_mem hne)
    have hnewest : Newest (first :: rest) ((front (first :: rest)).getLast hne) := by
      refine ⟨(front (first :: rest)).dropLast, older, ?_, ?_, ?_⟩
      · calc first :: rest = front (first :: rest) ++ older := hsplit
          _ = ((front (first :: rest)).dropLast ++ [(front (first :: rest)).getLast hne]) ++
                older :=
            congrArg (· ++ older) (List.dropLast_append_getLast hne).symm
          _ = _ := List.append_assoc _ _ _
      · intro other hother
        rw [hlast, timestamp_of_mem_front (List.mem_of_mem_dropLast hother)]
        exact Int64.le_refl _
      · intro other hother
        rw [hlast]
        exact lt_of_mem_dropWhile h hother
    rw [latest_of_newest hnewest, List.getLast?_eq_some_getLast hne]

/-- Versions of one time with older ones behind them are the front. -/
theorem front_append {tied older : List KeyValue} (hnone : tied = [] → older = [])
    (hsame : ∀ kv ∈ tied, ∀ other ∈ tied, kv.timestamp = other.timestamp)
    (hlt : ∀ kv ∈ tied, ∀ other ∈ older, other.timestamp < kv.timestamp) :
    front (tied ++ older) = tied := by
  cases tied with
  | nil =>
    rw [hnone rfl]
    rfl
  | cons first rest =>
    have hbehind : older.takeWhile (fun other => other.timestamp = first.timestamp) = [] := by
      cases older with
      | nil => rfl
      | cons other _ =>
        have hother := Int64.ne_of_lt (hlt first List.mem_cons_self other List.mem_cons_self)
        rw [List.takeWhile_cons_of_neg (by simpa using hother)]
    rw [List.cons_append, front, List.takeWhile_append_of_pos, hbehind, List.append_nil]
    intro kv hkv
    exact decide_eq_true (hsame kv (List.mem_cons_of_mem first hkv) first List.mem_cons_self)

end KeyValue

namespace StoreResult

/-- The versions of a column that share the timestamp of the first. -/
def front (r : StoreResult) (family qualifier : Bytes) : List KeyValue :=
  KeyValue.front (r.column family qualifier)

/-- The versions of a column stand newest first. -/
theorem column_descending {r : StoreResult} (h : r.cells.Pairwise fun a b => inOrder a b)
    (family qualifier : Bytes) :
    (r.column family qualifier).Pairwise fun a b => b.timestamp ≤ a.timestamp := by
  refine (h.filter _).imp_of_mem fun {a b} ha hb hab => ?_
  simp only [column, KeyValue.isOf, List.mem_filter, Bool.and_eq_true, decide_eq_true_eq] at ha hb
  rw [inOrder, order, ha.2.1, ha.2.2, hb.2.1, hb.2.2, Std.ReflOrd.compare_self,
    Std.ReflOrd.compare_self] at hab
  exact Std.isLE_compare.1 hab

/-- The latest version of a column is the last of the front. -/
theorem columnLatest_eq {r : StoreResult} (h : r.cells.Pairwise fun a b => inOrder a b)
    (family qualifier : Bytes) :
    r.columnLatest family qualifier = (r.front family qualifier).getLast? :=
  KeyValue.latest_eq_getLast?_front (column_descending h family qualifier)

end StoreResult

/-- A column among the cells of a row, each column being there once. -/
theorem View.filter_cells (key : Bytes) (v : View) (n : Nat) {columns : List Column}
    (h : columns.Pairwise fun c d => compare c d = .lt) (c : Column) :
    (v.cells key n columns).filter (·.isOf c.family c.qualifier) =
      if c ∈ columns then ((v key c).take n).map (KeyValue.ofVersion key c) else [] := by
  have hother : ∀ d ≠ c, (((v key d).take n).map (KeyValue.ofVersion key d)).filter
      (·.isOf c.family c.qualifier) = [] := by
    intro d hd
    rw [List.filter_eq_nil_iff]
    intro kv hkv
    obtain ⟨version, -, rfl⟩ := List.mem_map.1 hkv
    exact fun hof => hd (KeyValue.isOf_ofVersion.1 hof)
  have hself : (((v key c).take n).map (KeyValue.ofVersion key c)).filter
      (·.isOf c.family c.qualifier) = ((v key c).take n).map (KeyValue.ofVersion key c) := by
    rw [List.filter_eq_self]
    intro kv hkv
    obtain ⟨version, -, rfl⟩ := List.mem_map.1 hkv
    exact KeyValue.isOf_ofVersion.2 rfl
  unfold cells
  induction columns with
  | nil => rfl
  | cons d rest ih =>
    obtain ⟨hd, hrest⟩ := List.pairwise_cons.1 h
    rw [List.flatMap_cons, List.filter_append, ih hrest]
    by_cases hc : d = c
    · subst hc
      have hnot : d ∉ rest := by
        intro hmem
        have hlt := hd d hmem
        rw [Std.ReflOrd.compare_self] at hlt
        cases hlt
      rw [hself, if_neg hnot, if_pos List.mem_cons_self, List.append_nil]
    · rw [hother d hc, List.nil_append]
      simp only [List.mem_cons, Ne.symm hc, false_or]

/-! ### The last write to a column -/

/-- What the last of some events to write to a column wrote there, the last cell first. -/
def Event.lastWrite (table : String) (key : Bytes) (column : Column) : List Event → Versions
  | [] => []
  | e :: earlier =>
    if e.versions table key column = [] then lastWrite table key column earlier
    else e.versions table key column

/-- What the last put that wrote to a column since the last deletion of its row wrote there. -/
def Journal.lastWrite (j : Journal) (table : String) (key : Bytes) (column : Column) : Versions :=
  Event.lastWrite table key column (j.events.takeWhile fun e => !e.removes table key)

section LastWrite

variable {table : String} {key : Bytes} {column : Column}

theorem Event.lastWrite_mem {events : List Event}
    (h : Event.lastWrite table key column events ≠ []) :
    ∃ e ∈ events, Event.lastWrite table key column events = e.versions table key column := by
  induction events with
  | nil => exact absurd rfl h
  | cons e earlier ih =>
    rw [lastWrite] at h ⊢
    by_cases he : e.versions table key column = []
    · rw [if_pos he] at h ⊢
      obtain ⟨e', hmem, heq⟩ := ih h
      exact ⟨e', List.mem_cons_of_mem e hmem, heq⟩
    · rw [if_neg he]
      exact ⟨e, List.mem_cons_self, rfl⟩

/-- The last write stands in front of everything else that was written to the column. -/
theorem Event.exists_flatMap_eq {events : List Event} (h : events.Pairwise fun a b =>
      ∀ t, a.time? = some t → ∀ u, b.time? = some u → u.toInt < t.toInt) :
    ∃ older, events.flatMap (Event.versions table key column) =
        Event.lastWrite table key column events ++ older ∧
      (Event.lastWrite table key column events = [] → older = []) ∧
      ∀ v ∈ Event.lastWrite table key column events, ∀ w ∈ older, w.1 < v.1 := by
  induction events with
  | nil => exact ⟨[], rfl, fun _ => rfl, fun v hv => absurd hv List.not_mem_nil⟩
  | cons e earlier ih =>
    obtain ⟨hfirst, hrest⟩ := List.pairwise_cons.1 h
    rw [List.flatMap_cons, lastWrite]
    by_cases he : e.versions table key column = []
    · rw [if_pos he, he, List.nil_append]
      exact ih hrest
    · rw [if_neg he]
      refine ⟨earlier.flatMap (Event.versions table key column), rfl, fun hnil => absurd hnil he,
        ?_⟩
      intro v hv w hw
      obtain ⟨e', hmem, hw⟩ := List.mem_flatMap.1 hw
      exact Int64.lt_iff_toInt_lt.2 (hfirst e' hmem v.1 (Journal.time_of_mem_versions hv) w.1
        (Journal.time_of_mem_versions hw))

/-- All that one put writes to a column has one timestamp. -/
theorem Event.time_eq_of_mem_lastWrite {events : List Event} {v w : Int64 × Bytes}
    (hv : v ∈ Event.lastWrite table key column events)
    (hw : w ∈ Event.lastWrite table key column events) : v.1 = w.1 := by
  obtain ⟨e, -, heq⟩ := Event.lastWrite_mem (List.ne_nil_of_mem hv)
  rw [heq] at hv hw
  exact Option.some.inj
    ((Journal.time_of_mem_versions hv).symm.trans (Journal.time_of_mem_versions hw))

/-- The front of some newest versions of a column is what the last write wrote of them. -/
theorem Journal.Timely.front_history {j : Journal} {latest : Int} (h : j.Timely latest) (n : Nat) :
    KeyValue.front (((j.history table key column).take n).map (KeyValue.ofVersion key column)) =
      ((j.lastWrite table key column).take n).map (KeyValue.ofVersion key column) := by
  obtain ⟨older, hhistory, hnone, hlt⟩ := @Event.exists_flatMap_eq table key column _
    (h.events_descending.sublist (List.takeWhile_sublist _))
  have hsplit : j.history table key column = j.lastWrite table key column ++ older := hhistory
  rw [hsplit, List.take_append, List.map_append]
  apply KeyValue.front_append
  · intro hnil
    rw [List.map_eq_nil_iff, List.take_eq_nil_iff] at hnil ⊢
    rcases hnil with hzero | hempty
    · exact .inl (by omega)
    · exact .inr (hnone hempty)
  · intro kv hkv other hother
    obtain ⟨v, hv, rfl⟩ := List.mem_map.1 hkv
    obtain ⟨w, hw, rfl⟩ := List.mem_map.1 hother
    exact Event.time_eq_of_mem_lastWrite (List.mem_of_mem_take hv) (List.mem_of_mem_take hw)
  · intro kv hkv other hother
    obtain ⟨v, hv, rfl⟩ := List.mem_map.1 hkv
    obtain ⟨w, hw, rfl⟩ := List.mem_map.1 hother
    exact hlt v (List.mem_of_mem_take hv) w (List.mem_of_mem_take hw)

/-- A put that names the column once writes one version. -/
theorem Journal.length_lastWrite_le {j : Journal}
    (h : ∀ time p, .written table time p ∈ j.events → p.row = key →
      (p.cells.filter fun cell => cell.1 = column).length ≤ 1) :
    (j.lastWrite table key column).length ≤ 1 := by
  by_cases hne : j.lastWrite table key column = []
  · rw [hne]
    exact Nat.zero_le 1
  · obtain ⟨e, hmem, heq⟩ := Event.lastWrite_mem hne
    rw [lastWrite, heq]
    cases e with
    | deleted => exact Nat.zero_le 1
    | written table' time p =>
      rw [Event.versions]
      split
      · next hhere =>
        obtain ⟨rfl, rfl⟩ := hhere
        rw [List.length_reverse, List.length_map]
        exact h time p ((List.takeWhile_sublist _).subset hmem) rfl
      · exact Nat.zero_le 1

end LastWrite

/-! ### Sessions -/

namespace Workspace.Follows

variable {π : Type} [Pooling π] {w : Workspace π} {limit : Nat} {j : Journal} (h : w.Follows limit j)
include h

theorem step_get {name : String} {handle : Handle} (hheld : j.held name = some handle) (g : Get) :
    w.step (.get name g) = (.result ((w.store.table handle.table).get g), w) := by
  rw [← h.held_eq name] at hheld
  obtain ⟨held, hname, rfl⟩ := Option.map_eq_some_iff.1 hheld
  exact Workspace.step_get hname g

/-- While the timestamps are in order, a get finds of a column the newest entries of its history. -/
theorem get_column {latest : Int} (htimely : j.Timely latest) {g : Get} {c : Column}
    (hask : g.Asks c) (table : String) :
    ((w.store.table table).get g).column c.family c.qualifier =
      ((j.history table g.row c).take (min g.maxVersions limit)).map
        (KeyValue.ofVersion g.row c) := by
  have hview : (w.store.table table).versions = j.view limit table := by
    funext key column
    exact h.store.versions_eq table key column
  obtain ⟨columns, hascending, hcolumns, hholds⟩ := (w.store.table table).get_holds g
  rw [hview] at hcolumns hholds
  have hcells := hholds.exact (View.cells_ordered _ hascending fun c =>
    (htimely.history_descending table g.row c).sublist (List.take_sublist _ _))
  rw [StoreResult.column, hcells, View.filter_cells g.row _ _ hascending, ← List.take_take]
  by_cases hc : c ∈ columns
  · rw [if_pos hc]
    rfl
  · have hnil : j.view limit table g.row c = [] := by
      by_contra hne
      exact hc ((hcolumns c).2 ⟨hask, hne⟩)
    rw [if_neg hc, show (j.history table g.row c).take limit = [] from hnil,
      List.take_nil, List.map_nil]

end Workspace.Follows

theorem head?_eq_getLast?_of_length_le {α : Type} {l : List α} (h : l.length ≤ 1) :
    l.head? = l.getLast? := by
  match l with
  | [] => rfl
  | [a] => rfl

/-- The value of a column in a result is that of its latest version, which is the last of the front;
the first version of the column is the first of the front.  So the two accessors agree exactly when
the first and the last of the front are one.

After any session, and while the clock lasts, every get finds at the front of a column what the last
write to the column wrote there, the last cell first, as far as it is kept and asked for.  Its first
is what was written to the column last.  There is only one of it, and the accessors agree, where no
put names the column more than once. -/
theorem get_front_eq_lastWrite (π : Type) [Pooling π] (versions : Nat) (steps : List Step) :
    let start : Workspace π := { store := .keeping versions }
    let w := (start.run steps).2
    let j := ({} : Journal).followAll (steps.zip (start.run steps).1)
    ∀ name handle, j.held name = some handle → ∀ g : Get, ∃ r,
      w.step (.get name g) = (.result r, w) ∧ ∀ c : Column,
      let column := r.column c.family c.qualifier
      let latest := r.columnLatest c.family c.qualifier
      let front := r.front c.family c.qualifier
      (r.value c.family c.qualifier = latest.map (·.value) ∧ latest = front.getLast? ∧
        (column.head? = latest ↔ front.head? = front.getLast?)) ∧
      (ClockLasts steps j.times.length → g.Asks c →
        front = ((j.lastWrite handle.table g.row c).take (min g.maxVersions (max 1 versions))).map
          (KeyValue.ofVersion g.row c) ∧
        (0 < g.maxVersions → column.head? =
          (j.history handle.table g.row c).head?.map (KeyValue.ofVersion g.row c)) ∧
        ((∀ time p, .written handle.table time p ∈ j.events → p.row = g.row →
            (p.cells.filter fun cell => cell.1 = c).length ≤ 1) → column.head? = latest)) := by
  intro start w j name handle hheld g
  have hfollows : w.Follows (max 1 versions) j := (Workspace.follows_keeping versions).run steps
  refine ⟨_, hfollows.step_get hheld g, fun c => ?_⟩
  intro column latest front
  obtain ⟨columns, -, -, hholds⟩ := (w.store.table handle.table).get_holds g
  have hlatest : latest = front.getLast? :=
    StoreResult.columnLatest_eq hholds.ordered c.family c.qualifier
  have hfirst : front.head? = column.head? := KeyValue.head?_front column
  have hagree : column.head? = latest ↔ front.head? = front.getLast? := by rw [hlatest, hfirst]
  refine ⟨⟨rfl, hlatest, hagree⟩, ?_⟩
  intro hclock hask
  obtain ⟨bound, htimely⟩ := hclock.timely
  have hcolumn : column = _ := hfollows.get_column htimely hask handle.table
  have hfront : front = ((j.lastWrite handle.table g.row c).take
      (min g.maxVersions (max 1 versions))).map (KeyValue.ofVersion g.row c) := by
    rw [← htimely.front_history, ← hcolumn]
    rfl
  refine ⟨hfront, ?_, ?_⟩
  · intro hpos
    rw [hcolumn, List.head?_map, List.head?_take, if_neg (by omega)]
  · intro honce
    rw [hagree]
    apply head?_eq_getLast?_of_length_le
    rw [hfront, List.length_map, List.length_take]
    exact Nat.le_trans (Nat.min_le_right _ _) (Journal.length_lastWrite_le honce)

/-- A column that the last put names twice, after an earlier put that names it once: the front of a
get of three versions holds the two cells of the last put. -/
theorem get_front_eq_lastWrite_twice :
    let c : Column := ⟨[102], [113]⟩
    let steps : List Step := [
      .createTable "t", .openTable "t" "a", .put "a" [⟨[7], [(c, [0])]⟩], .flush "a",
      .put "a" [⟨[7], [(c, [1]), (c, [2])]⟩], .flush "a"]
    let w := (({ store := .keeping 3 } : Workspace).run steps).2
    ∃ r, w.step (.get "a" { row := [7], maxVersions := 3 }) = (.result r, w) ∧
      r.front [102] [113] = [⟨[7], [102], [113], 2, [2]⟩, ⟨[7], [102], [113], 2, [1]⟩] := by
  intro c steps w
  let j := ({} : Journal).followAll
    (steps.zip (({ store := .keeping 3 } : Workspace).run steps).1)
  have hheld : j.held "a" = some { table := "t" } := by rfl
  have hlasts : ClockLasts steps j.times.length := by
    intro now hnow
    have hzero : now = 0 := by simpa [steps, Step.readings] using hnow
    rw [hzero]
    decide
  have hwrite : j.lastWrite "t" [7] c = [(2, [2]), (2, [1])] := by decide +kernel
  obtain ⟨r, hstep, hfound⟩ :=
    get_front_eq_lastWrite Pool 3 steps "a" { table := "t" } hheld { row := [7], maxVersions := 3 }
  obtain ⟨-, hfront⟩ := hfound c
  refine ⟨r, hstep, ?_⟩
  rw [(hfront hlasts (.inl rfl)).1]
  show (List.take 3 (j.lastWrite "t" [7] c)).map _ = _
  rw [hwrite]
  rfl

/-- A column that a put names twice: the first version is the cell written last, and the latest the
one written before it. -/
theorem column_head_ne_latest :
    let c : Column := ⟨[102], [113]⟩
    let steps : List Step := [
      .createTable "t", .openTable "t" "a", .put "a" [⟨[7], [(c, [1]), (c, [2])]⟩], .flush "a"]
    let w := (({ store := .keeping 3 } : Workspace).run steps).2
    ∃ r, w.step (.get "a" { row := [7], maxVersions := 3 }) = (.result r, w) ∧
      (r.column [102] [113]).head? = some ⟨[7], [102], [113], 1, [2]⟩ ∧
      r.columnLatest [102] [113] = some ⟨[7], [102], [113], 1, [1]⟩ ∧
      r.value [102] [113] = some [1] := by
  intro c steps w
  let g : Get := { row := [7], maxVersions := 3 }
  let j := ({} : Journal).followAll
    (steps.zip (({ store := .keeping 3 } : Workspace).run steps).1)
  have hfollows : w.Follows 3 j := (Workspace.follows_keeping 3).run steps
  have hlasts : ClockLasts steps j.times.length := by
    intro now hnow
    have hzero : now = 0 := by simpa [steps, Step.readings] using hnow
    rw [hzero]
    decide
  obtain ⟨bound, htimely⟩ := hlasts.timely
  have hhistory : j.history "t" [7] c = [(1, [2]), (1, [1])] := by decide +kernel
  have hcolumn : ((w.store.table "t").get g).column [102] [113] =
      [⟨[7], [102], [113], 1, [2]⟩, ⟨[7], [102], [113], 1, [1]⟩] := by
    have hfound := hfollows.get_column htimely (g := g) (c := c) (.inl rfl) "t"
    rw [hhistory] at hfound
    exact hfound
  have hlatest : ((w.store.table "t").get g).columnLatest [102] [113] =
      some ⟨[7], [102], [113], 1, [1]⟩ := by
    rw [StoreResult.columnLatest, hcolumn]
    decide
  have hheld : j.held "a" = some { table := "t" } := rfl
  refine ⟨_, hfollows.step_get hheld g, ?_, hlatest, ?_⟩
  · rw [hcolumn]
    rfl
  · rw [StoreResult.value, hlatest]
    rfl

end ColumnConnector
