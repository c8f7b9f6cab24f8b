import ColumnConnector.Proofs.Store.Session

/-!
# Timestamps

A clock gives out ascending timestamps until it has used up the last of them (`Clock.toInt_next`).
What time of day it reads is set by the session, and it moves one beyond its last timestamp at most,
so it cannot run out before some time of day and the number of writes add up to more than there are
timestamps (`ClockLasts`).

While the clock lasts, later writes have greater timestamps and the timestamps of a history descend
(`Journal.Timely.history_descending`).
-/

namespace ColumnConnector

/-- The times of day that are going to be read after a request. -/
def Step.readings : Step → List Int64
  | .setTime now later => now :: later
  | _ => []

/-- From no time of day so many writes reach the end of the clock, which starts at zero. -/
def ClockLasts (steps : List Step) (writes : Nat) : Prop :=
  ∀ now : Int64, now = 0 ∨ (∃ s ∈ steps, now ∈ s.readings) →
    now.toInt + writes ≤ Int64.maxValue.toInt

/-- The timestamp after the last one, or the time of day if that is later. -/
theorem Clock.toInt_next (c : Clock) (h : c.last.toInt < Int64.maxValue.toInt) :
    c.next.toInt = max (max c.now.toInt 0) (c.last.toInt + 1) := by
  have hmin := c.last.le_toInt
  have hsucc : (c.last + 1).toInt = c.last.toInt + 1 := by
    rw [Int64.toInt_add]
    rw [Int64.toInt_maxValue] at h
    exact Int.bmod_eq_of_le (by simp; omega) (by simp; omega)
  have htime : (if c.now < 0 then 0 else c.now).toInt = max c.now.toInt 0 := by
    by_cases hn : c.now < 0
    · have hneg : c.now.toInt < 0 := Int64.lt_iff_toInt_lt.1 hn
      rw [if_pos hn, Int64.toInt_zero]
      omega
    · have hpos : ¬ c.now.toInt < 0 := fun hlt => hn (Int64.lt_iff_toInt_lt.2 hlt)
      rw [if_neg hn]
      omega
  unfold next
  dsimp only
  by_cases hlt : (if c.now < 0 then 0 else c.now) < c.last + 1
  · rw [if_pos hlt, hsucc]
    rw [Int64.lt_iff_toInt_lt, htime, hsucc] at hlt
    omega
  · rw [if_neg hlt, htime]
    rw [Int64.lt_iff_toInt_lt, htime, hsucc] at hlt
    omega

namespace Journal

variable {π : Type}

/-- The timestamps of all writes, the last one first. -/
def times (j : Journal) : List Int64 := j.events.filterMap Event.time?

theorem times_foldl_write (table : String) (puts : List Put) (j : Journal) :
    j.times.length ≤ (puts.foldl (write table) j).times.length := by
  induction puts generalizing j with
  | nil => exact Nat.le_refl _
  | cons p rest ih => exact Nat.le_trans (Nat.le_succ _) (ih (write table j p))

theorem times_foldl_remove (table : String) (keys : List Bytes) (j : Journal) :
    (keys.foldl (remove table) j).times = j.times := by
  induction keys generalizing j with
  | nil => rfl
  | cons k rest ih => exact ih (remove table j k)

/-- No time of day is beyond `latest`, and the timestamps descend towards the earlier writes. -/
structure Timely (j : Journal) (latest : Int) : Prop where
  start : 0 ≤ latest
  now_le : j.clock.now.toInt ≤ latest
  later_le : ∀ t ∈ j.clock.later, t.toInt ≤ latest
  last_le : j.clock.last.toInt ≤ latest + j.times.length
  newest : ∀ t ∈ j.times, t.toInt ≤ j.clock.last.toInt
  descending : j.times.Pairwise fun a b => b.toInt < a.toInt

namespace Timely

variable {j : Journal} {latest : Int}

/-- Only the clock and the timestamps count. -/
theorem congr {j' : Journal} (h : j.Timely latest) (hclock : j'.clock = j.clock)
    (htimes : j'.times = j.times) : j'.Timely latest := by
  constructor
  · exact h.start
  · rw [hclock]
    exact h.now_le
  · rw [hclock]
    exact h.later_le
  · rw [hclock, htimes]
    exact h.last_le
  · rw [hclock, htimes]
    exact h.newest
  · rw [htimes]
    exact h.descending

theorem write (h : j.Timely latest) (table : String) (p : Put)
    (hroom : latest + (Journal.write table j p).times.length ≤ Int64.maxValue.toInt) :
    (Journal.write table j p).Timely latest := by
  have hlen : (Journal.write table j p).times.length = j.times.length + 1 := rfl
  have hlast := h.last_le
  have hstart := h.start
  have hnow := h.now_le
  have hnext := j.clock.toInt_next (by rw [hlen] at hroom; omega)
  have hclock : (Journal.write table j p).clock.last = j.clock.next := rfl
  refine ⟨hstart, ?_, fun t ht => h.later_le t (List.mem_of_mem_tail ht), ?_, ?_, ?_⟩
  · show (j.clock.later.headD j.clock.now).toInt ≤ latest
    cases hlater : j.clock.later with
    | nil => exact hnow
    | cons t rest => exact h.later_le t (by rw [hlater]; exact List.mem_cons_self)
  · rw [hclock, hlen]
    omega
  · intro t ht
    rw [hclock]
    rcases List.mem_cons.1 ht with rfl | ht
    · exact Int.le_refl _
    · have := h.newest t ht
      omega
  · refine List.pairwise_cons.2 ⟨fun t ht => ?_, h.descending⟩
    have := h.newest t ht
    omega

theorem foldl_write (h : j.Timely latest) (table : String) (puts : List Put)
    (hroom : latest + (puts.foldl (Journal.write table) j).times.length ≤ Int64.maxValue.toInt) :
    (puts.foldl (Journal.write table) j).Timely latest := by
  induction puts generalizing j with
  | nil => exact h
  | cons p rest ih =>
    have hgrow := times_foldl_write table rest (Journal.write table j p)
    rw [List.foldl_cons] at hroom
    exact ih (h.write table p (by omega)) hroom

theorem through (h : j.Timely latest) {name : String} {f : Handle → Journal}
    (hf : ∀ handle, j.held name = some handle → (f handle).Timely latest) :
    (j.through name f).Timely latest := by
  unfold Journal.through
  cases hheld : j.held name with
  | none => exact h
  | some handle => exact hf handle hheld

/-- The timestamps stay in order through one request, unless they run out. -/
theorem follow (h : j.Timely latest) (step : Step) (answer : Answer π)
    (hset : ∀ t ∈ step.readings, t.toInt ≤ latest)
    (hroom : latest + (j.follow step answer).times.length ≤ Int64.maxValue.toInt) :
    (j.follow step answer).Timely latest := by
  cases step with
  | setTime now later =>
    obtain ⟨hnow, hlater⟩ := List.forall_mem_cons.1 hset
    exact ⟨h.start, hnow, hlater, h.last_le, h.newest, h.descending⟩
  | openTable table name =>
    simp only [Journal.follow]
    split <;> exact h.congr rfl rfl
  | put name puts =>
    refine h.through fun handle _ => ?_
    split <;> exact h.congr rfl rfl
  | flush name =>
    refine h.through fun handle hheld => ?_
    have hfollow : (j.follow (.flush name) answer).times =
        (handle.pending.foldl (Journal.write handle.table) j).times := by
      simp only [Journal.follow, Journal.through, hheld]
      rfl
    rw [hfollow] at hroom
    exact (h.foldl_write handle.table handle.pending hroom).congr rfl rfl
  | discard name => exact h.through fun handle _ => h.congr rfl rfl
  | delete name keys =>
    exact h.through fun handle _ =>
      h.congr (foldl_remove_frame handle.table keys j).2.2 (times_foldl_remove _ keys j)
  | checkout pool name =>
    rcases j.follow_checkout pool name answer with he | ⟨handle, he⟩ <;> rw [he]
    · exact h
    · exact h.congr rfl rfl
  | _ => exact h.congr rfl rfl

end Timely

theorem times_through {j : Journal} {name : String} {f : Handle → Journal}
    (hf : ∀ handle, j.times.length ≤ (f handle).times.length) :
    j.times.length ≤ (j.through name f).times.length := by
  unfold through
  cases j.held name with
  | none => exact Nat.le_refl _
  | some handle => exact hf handle

/-- A timestamp is never taken back. -/
theorem times_follow (j : Journal) (step : Step) (answer : Answer π) :
    j.times.length ≤ (j.follow step answer).times.length := by
  cases step with
  | openTable table name =>
    simp only [follow]
    split <;> exact Nat.le_refl _
  | put name puts =>
    refine times_through fun handle => ?_
    split <;> exact Nat.le_refl _
  | flush name => exact times_through fun handle => times_foldl_write handle.table handle.pending j
  | discard name => exact times_through fun handle => Nat.le_refl _
  | delete name keys =>
    exact times_through fun handle => Nat.le_of_eq (by rw [times_foldl_remove])
  | checkout pool name =>
    rcases j.follow_checkout pool name answer with he | ⟨handle, he⟩
    · exact Nat.le_of_eq (by rw [he])
    · exact Nat.le_of_eq (by rw [he]; rfl)
  | _ => exact Nat.le_refl _

theorem times_followAll (j : Journal) (transcript : List (Step × Answer π)) :
    j.times.length ≤ (j.followAll transcript).times.length := by
  unfold followAll
  induction transcript generalizing j with
  | nil => exact Nat.le_refl _
  | cons e rest ih => exact Nat.le_trans (times_follow j e.1 e.2) (ih _)

namespace Timely

variable {j : Journal} {latest : Int}

/-- The timestamps stay in order through a whole session, unless they run out. -/
theorem followAll (h : j.Timely latest) (transcript : List (Step × Answer π))
    (hset : ∀ e ∈ transcript, ∀ t ∈ e.1.readings, t.toInt ≤ latest)
    (hroom : latest + (j.followAll transcript).times.length ≤ Int64.maxValue.toInt) :
    (j.followAll transcript).Timely latest := by
  induction transcript generalizing j with
  | nil => exact h
  | cons e rest ih =>
    have hgrow := times_followAll (j.follow e.1 e.2) rest
    have hfirst : (j.follow e.1 e.2).Timely latest :=
      h.follow e.1 e.2 (hset e List.mem_cons_self)
        (Int.le_trans (Int.add_le_add_left (Int.ofNat_le.2 hgrow) latest) hroom)
    exact ih hfirst (fun e' he => hset e' (List.mem_cons_of_mem e he)) hroom

end Timely

/-! ### Histories -/

theorem time_of_mem_versions {e : Event} {table : String} {key : Bytes} {column : Column}
    {v : Int64 × Bytes} (h : v ∈ e.versions table key column) : e.time? = some v.1 := by
  cases e with
  | deleted => exact absurd h List.not_mem_nil
  | written table' time put =>
    simp only [Event.versions] at h
    split at h
    · obtain ⟨cell, -, rfl⟩ := List.mem_map.1 (List.mem_reverse.1 h)
      rfl
    · exact absurd h List.not_mem_nil

/-- Later events are of greater timestamps. -/
theorem Timely.events_descending {j : Journal} {latest : Int} (h : j.Timely latest) :
    j.events.Pairwise fun a b =>
      ∀ t, a.time? = some t → ∀ u, b.time? = some u → u.toInt < t.toInt :=
  List.pairwise_filterMap.1 h.descending

/-- While the timestamps are in order, no history has an older version before a newer one. -/
theorem Timely.history_descending {j : Journal} {latest : Int} (h : j.Timely latest)
    (table : String) (key : Bytes) (column : Column) :
    (j.history table key column).Pairwise fun a b => b.1 ≤ a.1 := by
  unfold history
  rw [List.pairwise_flatMap]
  refine ⟨fun e _ => List.pairwise_of_forall_mem_list fun v hv w hw => ?_,
    (h.events_descending.sublist (List.takeWhile_sublist _)).imp fun {d e} hde v hv w hw => ?_⟩
  · have htimes : some v.1 = some w.1 :=
      (time_of_mem_versions hv).symm.trans (time_of_mem_versions hw)
    rw [Option.some.inj htimes]
    exact Int64.le_refl _
  · have hlt := hde v.1 (time_of_mem_versions hv) w.1 (time_of_mem_versions hw)
    exact Int64.le_iff_toInt_le.2 (Int.le_of_lt hlt)

end Journal

end ColumnConnector
