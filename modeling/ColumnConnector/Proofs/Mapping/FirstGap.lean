import ColumnConnector.Proofs.Mapping.Grouping

/-!
# Reading up to the first gap

Entries are read in turns, one entry in each, with no bound on the number of turns
(`HeaderMapping.Reads`).  There are no more entries in a row than headers, so the turns come to an end,
and what they come to is what `resolve` gives, which has the bound in it
(`HeaderMapping.reads_iff`).

Everything else is carried through the turns: two messages with the same entries before the first gap
take the same turns, the rows are grouped after each, and only the first entry that cannot be read
ends them with an error.
-/

namespace ColumnConnector.HeaderMapping

open Header
open ColumnConnector.Numbering (Turns)

/-- The number `n` is the least without an entry. -/
structure FirstGap (m : Message) (n : Nat) : Prop where
  one_le : 1 ≤ n
  entry : ∀ i, 1 ≤ i → i < n → hasEntry m i = true
  gap : hasEntry m n = false

/-- With the rows of the entries before `i`, reading on from `i` comes to the outcome. -/
inductive Reads (m : Message) : Nat → RowBatch → Except ConnectorError RowBatch → Prop where
  | gap {i : Nat} {batch : RowBatch} : hasEntry m i = false → Reads m i batch (.ok batch)
  | fails {i : Nat} {batch : RowBatch} {e : ConversionError} :
      hasEntry m i = true → entryRow m i = .error e → Reads m i batch (.error (.conversion e))
  | entry {i : Nat} {batch : RowBatch} {e : Row} {outcome : Except ConnectorError RowBatch} :
      hasEntry m i = true → entryRow m i = .ok e → Reads m (i + 1) (addEntry e batch) outcome →
      Reads m i batch outcome

/-- The entry of the number `i` is the first of those before `n` that cannot be read. -/
structure FailsFirst (m : Message) (n i : Nat) (e : ConversionError) : Prop where
  one_le : 1 ≤ i
  lt : i < n
  fails : entryRow m i = .error e
  before : ∀ j, 1 ≤ j → j < i → ∃ d, entryRow m j = .ok d

theorem exists_firstGap (m : Message) : ∃ n, FirstGap m n ∧ n ≤ m.headers.size + 1 := by
  have hsize : ∀ n, (∀ i, 1 ≤ i → i ≤ n → hasEntry m i = true) → n ≤ m.headers.size :=
    fun _ => le_size_of_hasEntry
  obtain ⟨n, hgap, hle⟩ := Numbering.exists_firstGap hsize
  exact ⟨n, ⟨hgap.one_le, hgap.there, hgap.gap⟩, hle⟩

namespace FirstGap

variable {m : Message} {n i : Nat} (h : FirstGap m n)
include h

theorem numbers : Numbering.FirstGap (hasEntry m) n := ⟨h.one_le, h.entry, h.gap⟩

theorem lt_of_hasEntry (hle : i ≤ n) (hentry : hasEntry m i = true) : i < n :=
  h.numbers.lt_of_there hle hentry

theorem eq_of_gap (hi : 1 ≤ i) (hle : i ≤ n) (hgap : hasEntry m i = false) : i = n :=
  h.numbers.eq_of_gap hi hle hgap

end FirstGap

/-! ### The turns come to an end -/

section Turns

variable {m : Message} {i n : Nat} {batch : RowBatch} {outcome : Except ConnectorError RowBatch}

/-- The row of an entry, or why the message cannot be read. -/
def readEntry (m : Message) (i : Nat) : Except ConnectorError Row :=
  (entryRow m i).mapError .conversion

theorem reads_iff_turns :
    Reads m i batch outcome ↔
      Turns (hasEntry m) (readEntry m) (fun batch e => addEntry e batch) i batch outcome := by
  constructor
  · intro h
    induction h with
    | gap hnone => exact .gap hnone
    | fails hsome he => exact .fails hsome (mapError_eq_error_iff.2 ⟨_, he, rfl⟩)
    | entry hsome he _ ih => exact .next hsome (mapError_eq_ok_iff.2 he) ih
  · intro h
    induction h with
    | gap hnone => exact .gap hnone
    | fails hsome hread =>
      obtain ⟨e, he, rfl⟩ := mapError_eq_error_iff.1 hread
      exact .fails hsome he
    | next hsome hread _ ih => exact .entry hsome (mapError_eq_ok_iff.1 hread) ih

/-- What comes of a batch when further entries are added, unless one of them could not be read. -/
def addAll (batch : RowBatch) : Except ConversionError (List Row) → Except ConnectorError RowBatch
  | .ok entries => .ok (entries.foldl (fun batch e => addEntry e batch) batch)
  | .error e => .error (.conversion e)

theorem resolve_eq_addAll (m : Message) :
    resolve m = addAll [] ((entryNumbers m).mapM (entryRow m)) := by
  unfold resolve addAll
  rfl

theorem addAll_eq (batch : RowBatch) (read : Except ConversionError (List Row)) :
    addAll batch read = (fun l => l.foldl (fun batch e => addEntry e batch) batch) <$>
      read.mapError .conversion := by
  cases read <;> rfl

/-- The turns that begin with the first entry come to what is read of a message, and to nothing
else. -/
theorem reads_iff : Reads m 1 [] outcome ↔ outcome = resolve m := by
  obtain ⟨n, hgap, -⟩ := exists_firstGap m
  have hnumbers : entryNumbers m = List.range' 1 (n - 1) :=
    hgap.numbers.takeWhile_range' fun _ => le_size_of_hasEntry
  rw [reads_iff_turns, Numbering.turns_iff hgap.numbers, resolve_eq_addAll, hnumbers, addAll_eq,
    mapError_mapM]
  rfl

/-! ### What the turns depend on -/

theorem entryRow_congr {m' : Message}
    (h : ∀ name ∈ ofEntry, m'.header (numbered name i) = m.header (numbered name i)) :
    entryRow m' i = entryRow m i := by
  have hid := h rowId (by decide)
  have hrowType := h rowType (by decide)
  have hfamily := h family (by decide)
  have hqualifier := h qualifier (by decide)
  have hvalue := h value (by decide)
  have hvalueType := h valueType (by decide)
  simp only [entryRow, entryCells, declaredType, valueAt, Message.headerText, hid, hrowType,
    hfamily, hqualifier, hvalue, hvalueType]

/-- Messages with the same entries before their common first gap take the same turns. -/
theorem Reads.congr (h : Reads m i batch outcome) {m' : Message} (hgap : FirstGap m n)
    (hgap' : FirstGap m' n) (hi : 1 ≤ i) (hle : i ≤ n)
    (hsame : ∀ j, 1 ≤ j → j < n → ∀ name ∈ ofEntry,
      m'.header (numbered name j) = m.header (numbered name j)) : Reads m' i batch outcome := by
  induction h with
  | gap hnone =>
    rw [hgap.eq_of_gap hi hle hnone]
    exact .gap hgap'.gap
  | fails hsome he =>
    have hlt := hgap.lt_of_hasEntry hle hsome
    exact .fails (hgap'.entry _ hi hlt) ((entryRow_congr (hsame _ hi hlt)).trans he)
  | entry hsome he _ ih =>
    have hlt := hgap.lt_of_hasEntry hle hsome
    exact .entry (hgap'.entry _ hi hlt) ((entryRow_congr (hsame _ hi hlt)).trans he)
      (ih (by omega) hlt)

/-! ### What the turns come to -/

/-- After each turn the rows are grouped, so they are in the end. -/
theorem Reads.grouped (h : Reads m i batch outcome) (hgap : FirstGap m n) (hi : 1 ≤ i) (hle : i ≤ n)
    {rows : List (Nat × Row)} (hbatch : rows.map Prod.snd = batch) (hrows : Grouped m i rows)
    {final : RowBatch} (hfinal : outcome = .ok final) :
    ∃ rows', rows'.map Prod.snd = final ∧ Grouped m n rows' := by
  induction h generalizing rows with
  | gap hnone =>
    cases hfinal
    exact ⟨rows, hbatch, hgap.eq_of_gap hi hle hnone ▸ hrows⟩
  | fails _ _ => cases hfinal
  | entry hsome he _ ih =>
    obtain ⟨rows', hrows', hgrouped⟩ := hrows.addEntry hi he
    rw [hbatch] at hrows'
    exact ih (by omega) (hgap.lt_of_hasEntry hle hsome) hrows' hgrouped hfinal

/-- Entries that can all be read are read to the end, and the first that cannot be read ends the
turns. -/
theorem Reads.ends (h : Reads m i batch outcome) (hgap : FirstGap m n) (hi : 1 ≤ i) (hle : i ≤ n)
    (hbefore : ∀ j, 1 ≤ j → j < i → ∃ d, entryRow m j = .ok d) :
    (∃ final, outcome = .ok final ∧ ∀ j, 1 ≤ j → j < n → ∃ d, entryRow m j = .ok d) ∨
      ∃ j e, outcome = .error (.conversion e) ∧ FailsFirst m n j e := by
  induction h with
  | gap hnone =>
    rw [hgap.eq_of_gap hi hle hnone] at hbefore
    exact .inl ⟨_, rfl, hbefore⟩
  | fails hsome he =>
    exact .inr ⟨_, _, rfl, hi, hgap.lt_of_hasEntry hle hsome, he, hbefore⟩
  | @entry i _ d _ hsome he _ ih =>
    refine ih (by omega) (hgap.lt_of_hasEntry hle hsome) fun j hj hlt => ?_
    rcases Nat.lt_succ_iff_lt_or_eq.1 hlt with hearlier | rfl
    · exact hbefore j hj hearlier
    · exact ⟨d, he⟩

end Turns

theorem FailsFirst.unique {m : Message} {n i j : Nat} {e e' : ConversionError}
    (h : FailsFirst m n i e) (h' : FailsFirst m n j e') : e = e' := by
  rcases Nat.lt_trichotomy i j with hlt | rfl | hgt
  · obtain ⟨d, hd⟩ := h'.before i h.one_le hlt
    cases hd.symm.trans h.fails
  · exact Except.error.inj (h.fails.symm.trans h'.fails)
  · obtain ⟨d, hd⟩ := h.before j h'.one_le hgt
    cases hd.symm.trans h'.fails

theorem resolve_eq_error_iff {m : Message} {n : Nat} (hgap : FirstGap m n) {e : ConnectorError} :
    resolve m = .error e ↔ ∃ i fault, FailsFirst m n i fault ∧ e = .conversion fault := by
  have hends := (reads_iff.2 rfl : Reads m 1 [] (resolve m)).ends hgap (Nat.le_refl 1) hgap.one_le
    fun j hj hlt => absurd hj (Nat.not_le.2 hlt)
  constructor
  · intro he
    rcases hends with ⟨final, hok, -⟩ | ⟨i, fault, herror, hfails⟩
    · cases hok.symm.trans he
    · exact ⟨i, fault, hfails, Except.error.inj (he.symm.trans herror)⟩
  · rintro ⟨i, fault, hfails, rfl⟩
    rcases hends with ⟨final, -, hall⟩ | ⟨j, fault', herror, hfails'⟩
    · obtain ⟨d, hd⟩ := hall i hfails.one_le hfails.lt
      cases hd.symm.trans hfails.fails
    · rw [herror, hfails.unique hfails']

theorem exists_grouped {m : Message} {n : Nat} (hgap : FirstGap m n) {batch : RowBatch}
    (h : resolve m = .ok batch) : ∃ rows, rows.map Prod.snd = batch ∧ Grouped m n rows :=
  (reads_iff.2 h.symm).grouped hgap (Nat.le_refl 1) hgap.one_le rfl (grouped_nil m) rfl

/-- Reading a message takes turns up to the first gap, which is no further than one behind the number
of headers, and comes to one outcome.  That depends on the headers of the entries before the gap and
on nothing else.  It is an error exactly when one of these entries cannot be read, and then the error
is that of the first of them.  Otherwise it is rows in the order in which their identifiers first
occur, no two of them the same and no column twice in a row, and each cell is that of the first entry
with the identifier and the column.  Every entry before the gap belongs to a row, and its column is
there.

Identifiers are compared as values, so an identifier that is not a number is the same as no other:
its entry makes up a row of its own. -/
theorem resolve_up_to_firstGap (m : Message) :
    ∃ n, FirstGap m n ∧ n ≤ m.headers.size + 1 ∧
      (∀ outcome, Reads m 1 [] outcome ↔ outcome = resolve m) ∧
      (∀ m', FirstGap m' n → (∀ i, 1 ≤ i → i < n → ∀ name ∈ ofEntry,
        m'.header (numbered name i) = m.header (numbered name i)) → resolve m' = resolve m) ∧
      (∀ batch, resolve m = .ok batch → ∃ rows, rows.map Prod.snd = batch ∧ Grouped m n rows) ∧
      ∀ e, resolve m = .error e ↔ ∃ i fault, FailsFirst m n i fault ∧ e = .conversion fault := by
  obtain ⟨n, hgap, hle⟩ := exists_firstGap m
  refine ⟨n, hgap, hle, fun outcome => reads_iff, ?_, fun batch => exists_grouped hgap,
    fun e => resolve_eq_error_iff hgap⟩
  intro m' hgap' hsame
  have hreads : Reads m 1 [] (resolve m) := reads_iff.2 rfl
  exact (reads_iff.1 (hreads.congr hgap hgap' (Nat.le_refl 1) hgap.one_le hsame)).symm

/-- The third entry repeats the identifier and the column of the first, so its value is passed over;
the fifth stands behind a gap. -/
theorem resolve_up_to_firstGap_repeated_column :
    let m : Message := { headers := SortedMap.ofList [
      (numbered rowId 1, .str "r"), (numbered family 1, .str "f"), (numbered qualifier 1, .str "q"),
      (numbered value 1, .str "x"), (numbered rowId 2, .str "s"), (numbered family 2, .str "f"),
      (numbered qualifier 2, .str "q"), (numbered rowId 3, .str "r"), (numbered family 3, .str "f"),
      (numbered qualifier 3, .str "q"), (numbered value 3, .str "y"),
      (numbered rowId 5, .str "t")] }
    let c : Cell := { family := some "f", qualifier := some "q" }
    let batch : RowBatch := [
      { id := some (.utf8 "r"), cells := [{ c with value := some (.utf8 "x") }] },
      { id := some (.utf8 "s"), cells := [c] }]
    FirstGap m 4 ∧ Reads m 1 [] (.ok batch) ∧
      ∃ rows, rows.map Prod.snd = batch ∧ Grouped m 4 rows := by
  intro m c batch
  have hfour : FirstGap m 4 := by
    have hentry : ∀ i < 4, 1 ≤ i → hasEntry m i = true := by decide +kernel
    exact ⟨by decide, fun i hi hlt => hentry i hlt hi, by decide +kernel⟩
  have hresolve : resolve m = .ok batch := eq_ok_of_toOption (by decide +kernel)
  obtain ⟨n, hgap, -, hreads, -, hgrouped, -⟩ := resolve_up_to_firstGap m
  cases hfour.numbers.unique hgap.numbers
  exact ⟨hfour, (hreads _).2 hresolve.symm, hgrouped batch hresolve⟩

end ColumnConnector.HeaderMapping
