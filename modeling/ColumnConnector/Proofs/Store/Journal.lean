import ColumnConnector.Store.Workspace

/-!
# The journal of a session

A journal notes down what a session asks for: which tables were created, which handle stands under
each name with the puts it has buffered, and, the newest first, the puts that were flushed and the
rows that were deleted.  It forgets nothing and sorts nothing.

What a column holds can be read off the journal alone: `history` lists the values written to it
since the last deletion of its row, the newest first.

Only one thing is taken from the answers of the session: whether a checkout was granted.
-/

namespace ColumnConnector

/-- A change to what is stored. -/
inductive Event where
  | written (table : String) (time : Int64) (put : Put)
  | deleted (table : String) (key : Bytes)

namespace Event

/-- Does the event remove the row? -/
def removes (table : String) (key : Bytes) : Event → Bool
  | .written _ _ _ => false
  | .deleted table' key' => table' = table && key' = key

/-- What the event writes to a column, the last cell first. -/
def versions (table : String) (key : Bytes) (column : Column) : Event → Versions
  | .written table' time put =>
    if table = table' ∧ key = put.row then
      ((put.cells.filter fun cell => cell.1 = column).map fun cell => (time, cell.2)).reverse
    else []
  | .deleted _ _ => []

/-- The timestamp of a write. -/
def time? : Event → Option Int64
  | .written _ time _ => some time
  | .deleted _ _ => none

end Event

/-- What is known of a session from its requests. -/
structure Journal where
  tables : List String := []
  clock : Clock := {}
  held : String → Option Handle := fun _ => none
  /-- The newest event first. -/
  events : List Event := []

namespace Journal

/-- The values written to a column since the last deletion of its row, the newest first. -/
def history (j : Journal) (table : String) (key : Bytes) (column : Column) : Versions :=
  (j.events.takeWhile fun e => !e.removes table key).flatMap (Event.versions table key column)

/-- Note which handle stands under a name from now on. -/
def hold (j : Journal) (name : String) (h : Option Handle) : Journal :=
  { j with held := fun n => if n = name then h else j.held n }

/-- Note a write under the next timestamp. -/
def write (table : String) (j : Journal) (put : Put) : Journal :=
  { j with events := .written table j.clock.next put :: j.events, clock := j.clock.tick }

/-- Note the deletion of a row. -/
def remove (table : String) (j : Journal) (key : Bytes) : Journal :=
  { j with events := .deleted table key :: j.events }

/-- A request through the handle under a name, if there is one. -/
def through (j : Journal) (name : String) (f : Handle → Journal) : Journal :=
  (j.held name).elim j f

variable {π : Type}

/-- Note one request. -/
def follow (j : Journal) : Step → Answer π → Journal
  | .setTime now later, _ => { j with clock := { j.clock with now, later } }
  | .createTable table, _ => { j with tables := table :: j.tables }
  | .openTable table name, _ => if table ∈ j.tables then j.hold name (some { table }) else j
  | .put name puts, _ => j.through name fun h =>
      if puts.any fun p => p.row.isEmpty then j
      else j.hold name (some { h with pending := h.pending ++ puts })
  | .flush name, _ => j.through name fun h =>
      (h.pending.foldl (write h.table) j).hold name (some { h with pending := [] })
  | .discard name, _ => j.through name fun h => j.hold name (some { h with pending := [] })
  | .delete name keys, _ => j.through name fun h => keys.foldl (remove h.table) j
  | .checkout _ name, .checkout (.granted h) _ => j.hold name (some { table := h.table })
  | .release name, _ => j.hold name none
  | _, _ => j

/-- Note the requests of a session with their answers. -/
def followAll (j : Journal) (transcript : List (Step × Answer π)) : Journal :=
  transcript.foldl (fun j e => j.follow e.1 e.2) j

/-! ### What one request adds to a history -/

theorem history_write (table : String) (j : Journal) (put : Put) (table' : String) (key : Bytes)
    (column : Column) :
    (write table j put).history table' key column =
      (Event.written table j.clock.next put).versions table' key column ++
        j.history table' key column := by
  simp [history, write, Event.removes]

theorem history_remove (table : String) (j : Journal) (key : Bytes) (table' : String)
    (key' : Bytes) (column : Column) :
    (remove table j key).history table' key' column =
      if table' = table ∧ key' = key then [] else j.history table' key' column := by
  by_cases h : table' = table ∧ key' = key
  · obtain ⟨rfl, rfl⟩ := h
    simp [history, remove, Event.removes]
  · have hkeep : (Event.deleted table key).removes table' key' = false := by
      simp only [Event.removes, Bool.and_eq_false_iff, decide_eq_false_iff_not]
      by_cases ht : table = table'
      · exact .inr fun hk => h ⟨ht.symm, hk.symm⟩
      · exact .inl ht
    rw [if_neg h]
    simp [history, remove, hkeep, Event.versions]

theorem history_foldl_remove (table : String) (j : Journal) (keys : List Bytes) (table' : String)
    (key : Bytes) (column : Column) :
    (keys.foldl (remove table) j).history table' key column =
      if table' = table ∧ key ∈ keys then [] else j.history table' key column := by
  induction keys generalizing j with
  | nil => simp
  | cons k rest ih =>
    rw [List.foldl_cons, ih, history_remove]
    by_cases ht : table' = table <;> by_cases hk : key = k <;> simp [ht, hk]

theorem held_hold (j : Journal) (name : String) (h : Option Handle) (n : String) :
    (j.hold name h).held n = if n = name then h else j.held n := rfl

/-- A checkout puts a handle under the name, if one was granted. -/
theorem follow_checkout (j : Journal) (pool name : String) (answer : Answer π) :
    j.follow (.checkout pool name) answer = j ∨
      ∃ h, j.follow (.checkout pool name) answer = j.hold name h := by
  cases answer with
  | checkout outcome p =>
    cases outcome with
    | granted h => exact .inr ⟨_, rfl⟩
    | refused e => exact .inl rfl
    | waiting => exact .inl rfl
  | _ => exact .inl rfl

/-- What the writes of a flush leave as it was. -/
theorem foldl_write_frame (table : String) (puts : List Put) (j : Journal) :
    (puts.foldl (write table) j).held = j.held ∧ (puts.foldl (write table) j).tables = j.tables := by
  induction puts generalizing j with
  | nil => exact ⟨rfl, rfl⟩
  | cons p rest ih => exact ih (write table j p)

/-- What deletions leave as it was. -/
theorem foldl_remove_frame (table : String) (keys : List Bytes) (j : Journal) :
    (keys.foldl (remove table) j).held = j.held ∧
      (keys.foldl (remove table) j).tables = j.tables ∧
      (keys.foldl (remove table) j).clock = j.clock := by
  induction keys generalizing j with
  | nil => exact ⟨rfl, rfl, rfl⟩
  | cons k rest ih => exact ih (remove table j k)

end Journal

end ColumnConnector
