import ColumnConnector.Proofs.Mapping.Headers
import ColumnConnector.Proofs.Mapping.Batches
import ColumnConnector.Proofs.Row.Columns
import ColumnConnector.Proofs.Value.Same

/-!
# Entries grouped by identifier

Two entries belong together when their identifiers are the same value, doubles being compared as
numbers.  That is symmetric and transitive, but what is not a number is not the same as itself
(`HeaderMapping.sameId_trans`): such an entry is a row of its own, whatever comes later.

`HeaderMapping.Grouped` says what the rows are when the entries before some number have been read, and
`HeaderMapping.Grouped.addEntry` that one more entry keeps it so.
-/

namespace ColumnConnector

namespace HeaderMapping

open Header

/-! ### Entries of one identifier -/

theorem sameId_comm (r s : Row) : sameId r s = sameId s r := by
  unfold sameId
  cases r.id with
  | none => cases s.id <;> rfl
  | some v =>
    cases s.id with
    | none => rfl
    | some w => exact CellValue.same_comm v w

theorem sameId_trans {r s t : Row} (hrs : sameId r s = true) (hst : sameId s t = true) :
    sameId r t = true := by
  unfold sameId at hrs hst ⊢
  cases hr : r.id with
  | none =>
    cases hs : s.id with
    | none =>
      rw [hs] at hst
      exact hst
    | some w =>
      rw [hr, hs] at hrs
      cases hrs
  | some v =>
    cases hs : s.id with
    | none =>
      rw [hr, hs] at hrs
      cases hrs
    | some w =>
      rw [hr, hs] at hrs
      rw [hs] at hst
      cases ht : t.id with
      | none =>
        rw [ht] at hst
        cases hst
      | some u =>
        rw [ht] at hst
        exact CellValue.same_trans hrs hst

theorem sameId_congr {r r' : Row} (h : r'.id = r.id) (s : Row) : sameId r' s = sameId r s := by
  unfold sameId
  rw [h]

/-- Identifiers that are no doubles are the same only if they are equal. -/
theorem sameId_iff {r s : Row} (h : ∀ v, r.id = some v → v.type ≠ .float64) :
    sameId r s = true ↔ r.id = s.id := by
  unfold sameId
  cases hr : r.id with
  | none => cases s.id <;> simp
  | some v =>
    cases s.id with
    | none => simp
    | some w => simp [CellValue.same_iff_eq (h v hr)]

/-- The row with the cells of an entry, if this is of its identifier. -/
def join (e r : Row) : Row := if sameId r e then e.cells.foldl Row.addCell r else r

theorem join_of_sameId {e r : Row} (h : sameId r e = true) :
    join e r = e.cells.foldl Row.addCell r := if_pos h

theorem join_of_not_sameId {e r : Row} (h : sameId r e = false) : join e r = r :=
  if_neg (Bool.not_eq_true _ ▸ h)

theorem id_join (e r : Row) : (join e r).id = r.id := by
  unfold join
  split
  · exact Row.id_foldl_addCell r e.cells
  · rfl

/-- Rows of different identifiers, as far as these can be told apart. -/
def Apart (batch : RowBatch) : Prop := batch.Pairwise fun r s => sameId r s = false

/-- An entry joins the one row of its identifier, or comes last. -/
theorem addEntry_eq {batch : RowBatch} (h : Apart batch) (e : Row) :
    addEntry e batch =
      batch.map (join e) ++ if batch.any (sameId · e) then [] else [e] := by
  induction batch with
  | nil => rfl
  | cons r rest ih =>
    obtain ⟨hr, hrest⟩ := List.pairwise_cons.1 h
    rw [addEntry, List.map_cons, List.any_cons]
    cases hsame : sameId r e with
    | true =>
      -- No other row is of the identifier.
      have hothers : rest.map (join e) = rest := by
        rw [List.map_congr_left (g := id), List.map_id]
        intro s hs
        refine join_of_not_sameId ?_
        rw [← Bool.not_eq_true]
        intro hse
        have hrs := sameId_trans hsame (sameId_comm s e ▸ hse)
        rw [hr s hs] at hrs
        cases hrs
      rw [join_of_sameId hsame, hothers, Bool.true_or, if_pos rfl, if_pos rfl, List.append_nil]
    | false =>
      rw [join_of_not_sameId hsame, Bool.false_or, if_neg Bool.false_ne_true, ih hrest]
      rfl

/-! ### The cell of an entry -/

/-- The column of an entry, if both parts are there. -/
theorem map_address_of_entryRow {m : Message} {i : Nat} {e : Row} (h : entryRow m i = .ok e) :
    e.cells.map Cell.address =
      match m.headerText (numbered family i), m.headerText (numbered qualifier i) with
      | some f, some q => [(some f, some q)]
      | _, _ => [] := by
  obtain ⟨-, hcells⟩ := parts_of_entryRow h
  rw [entryCells] at hcells
  cases hf : m.headerText (numbered family i) with
  | none =>
    rw [hf] at hcells
    rw [← (Except.ok.inj hcells : [] = e.cells)]
    rfl
  | some f =>
    cases hq : m.headerText (numbered qualifier i) with
    | none =>
      rw [hf, hq] at hcells
      rw [← (Except.ok.inj hcells : [] = e.cells)]
      rfl
    | some q =>
      rw [hf, hq] at hcells
      obtain ⟨valueType, -, hcells⟩ := bind_eq_ok_iff.1 hcells
      obtain ⟨value, -, hcells⟩ := bind_eq_ok_iff.1 hcells
      rw [← Except.ok.inj hcells]
      rfl

theorem distinct_of_entryRow {m : Message} {i : Nat} {e : Row} (h : entryRow m i = .ok e) :
    e.Distinct := by
  rw [Row.distinct_iff_nodup, map_address_of_entryRow h]
  split
  · exact List.nodup_singleton _
  · exact List.nodup_nil

/-! ### Rows of the entries before a number -/

/-- The entry of the number `i`, which is before `n`, is read as the row `e`. -/
structure EntryBefore (m : Message) (n i : Nat) (e : Row) : Prop where
  one_le : 1 ≤ i
  lt : i < n
  read : entryRow m i = .ok e

/-- An entry before `n` that belongs to the row `r`: the one with which the row begins, or one of the
same identifier. -/
structure Joins (m : Message) (n first : Nat) (r : Row) (i : Nat) (e : Row) : Prop where
  entry : EntryBefore m n i e
  belongs : i = first ∨ sameId r e = true

/-- The row `r` holds the entries before `n` of one identifier, the first of which has the number
`first`. -/
structure Gathers (m : Message) (n first : Nat) (r : Row) : Prop where
  founder : ∃ e, EntryBefore m n first e ∧ r.id = e.id ∧ r.rowType = e.rowType
  isFirst : ∀ i e, EntryBefore m n i e → i < first → sameId e r = false
  distinct : r.Distinct
  /-- Every cell is that of the first entry which has its column. -/
  lowest : ∀ c ∈ r.cells, ∃ i e, Joins m n first r i e ∧ c ∈ e.cells ∧
    ∀ j d, Joins m n first r j d → j < i → d.hasColumnOf c = false
  complete : ∀ i e, Joins m n first r i e → ∀ c ∈ e.cells, r.hasColumnOf c = true

/-- The rows, each with the number of its first entry, hold the entries before `n`. -/
structure Grouped (m : Message) (n : Nat) (rows : List (Nat × Row)) : Prop where
  gathers : ∀ p ∈ rows, Gathers m n p.1 p.2
  ascending : rows.Pairwise fun p q => p.1 < q.1
  apart : Apart (rows.map Prod.snd)
  complete : ∀ i e, EntryBefore m n i e → ∃ p ∈ rows, Joins m n p.1 p.2 i e

section OneMore

variable {m : Message} {n first i : Nat} {e r d : Row}

theorem EntryBefore.succ (h : EntryBefore m n i d) : EntryBefore m (n + 1) i d :=
  ⟨h.one_le, Nat.lt_succ_of_lt h.lt, h.read⟩

/-- The entries before the next number are those before this one and the one of this number. -/
theorem EntryBefore.of_succ (h : EntryBefore m (n + 1) i d) (he : entryRow m n = .ok e) :
    EntryBefore m n i d ∨ i = n ∧ d = e := by
  rcases Nat.lt_succ_iff_lt_or_eq.1 h.lt with hlt | rfl
  · exact .inl ⟨h.one_le, hlt, h.read⟩
  · exact .inr ⟨rfl, Except.ok.inj (h.read.symm.trans he)⟩

/-- An entry of another identifier leaves a row as it is. -/
theorem Gathers.keep (h : Gathers m n first r) (he : entryRow m n = .ok e)
    (hother : sameId r e = false) : Gathers m (n + 1) first r := by
  obtain ⟨f, hf, hid, htype⟩ := h.founder
  have hjoins : ∀ i d, Joins m (n + 1) first r i d → Joins m n first r i d := by
    rintro i d ⟨hentry, hbelongs⟩
    rcases hentry.of_succ he with hold | ⟨rfl, rfl⟩
    · exact ⟨hold, hbelongs⟩
    · rcases hbelongs with rfl | hsame
      · exact absurd hf.lt (Nat.lt_irrefl _)
      · rw [hother] at hsame
        cases hsame
  constructor
  · exact ⟨f, hf.succ, hid, htype⟩
  · intro i d hd hlt
    rcases hd.of_succ he with hold | ⟨rfl, rfl⟩
    · exact h.isFirst i d hold hlt
    · exact absurd (Nat.lt_trans hlt hf.lt) (Nat.lt_irrefl _)
  · exact h.distinct
  · intro c hc
    obtain ⟨i, d, hd, hcd, hlow⟩ := h.lowest c hc
    exact ⟨i, d, ⟨hd.entry.succ, hd.belongs⟩, hcd, fun j d' hd' => hlow j d' (hjoins j d' hd')⟩
  · exact fun i d hd => h.complete i d (hjoins i d hd)

/-- An entry of the identifier brings the cells of the columns that the row lacks. -/
theorem Gathers.join (h : Gathers m n first r) (hn : 1 ≤ n) (he : entryRow m n = .ok e)
    (hsame : sameId r e = true) : Gathers m (n + 1) first (e.cells.foldl Row.addCell r) := by
  obtain ⟨f, hf, hid, htype⟩ := h.founder
  have hrow := Row.id_foldl_addCell r e.cells
  have hcongr := sameId_congr hrow
  have hjoins : ∀ i d, Joins m (n + 1) first (e.cells.foldl Row.addCell r) i d →
      Joins m n first r i d ∨ i = n ∧ d = e := by
    rintro i d ⟨hentry, hbelongs⟩
    rw [hcongr] at hbelongs
    exact (hentry.of_succ he).imp_left fun hold => ⟨hold, hbelongs⟩
  constructor
  · exact ⟨f, hf.succ, hrow.trans hid, (Row.rowType_foldl_addCell r e.cells).trans htype⟩
  · intro i d hd hlt
    rw [sameId_comm, hcongr, sameId_comm]
    rcases hd.of_succ he with hold | ⟨rfl, rfl⟩
    · exact h.isFirst i d hold hlt
    · exact absurd (Nat.lt_trans hlt hf.lt) (Nat.lt_irrefl _)
  · exact Row.distinct_foldl_addCell h.distinct e.cells
  · intro c hc
    rcases Row.mem_foldl_addCell hc with hold | ⟨hnew, hlacks⟩
    · obtain ⟨i, d, hd, hcd, hlow⟩ := h.lowest c hold
      refine ⟨i, d, ⟨hd.entry.succ, by rw [hcongr]; exact hd.belongs⟩, hcd, ?_⟩
      intro j d' hd' hlt
      rcases hjoins j d' hd' with hbefore | ⟨rfl, -⟩
      · exact hlow j d' hbefore hlt
      · exact absurd (Nat.lt_trans hlt hd.entry.lt) (Nat.lt_irrefl _)
    · refine ⟨n, e, ⟨⟨hn, Nat.lt_succ_self n, he⟩, .inr (by rw [hcongr]; exact hsame)⟩, hnew, ?_⟩
      intro j d' hd' hlt
      rcases hjoins j d' hd' with hbefore | ⟨rfl, -⟩
      · -- The row has every column of an earlier entry, and it lacks this one.
        rw [← Bool.not_eq_true]
        intro hcolumn
        obtain ⟨c', hc', hcc'⟩ := List.any_eq_true.1 hcolumn
        have hhas := h.complete j d' hbefore c' hc'
        rw [Row.hasColumnOf_iff, Cell.sameColumn_iff.1 hcc', ← Row.hasColumnOf_iff, hlacks] at hhas
        cases hhas
      · exact absurd hlt (Nat.lt_irrefl _)
  · intro i d hd c hc
    rw [Row.hasColumnOf_foldl_addCell]
    rcases hjoins i d hd with hold | ⟨rfl, rfl⟩
    · exact .inl (h.complete i d hold c hc)
    · exact .inr (List.mem_map_of_mem hc)

/-- An entry whose identifier did not occur before is a row. -/
theorem Gathers.found (hn : 1 ≤ n) (he : entryRow m n = .ok e)
    (hnew : ∀ i d, EntryBefore m n i d → sameId d e = false) : Gathers m (n + 1) n e := by
  have hentry : EntryBefore m (n + 1) n e := ⟨hn, Nat.lt_succ_self n, he⟩
  have hjoins : ∀ i d, Joins m (n + 1) n e i d → i = n ∧ d = e := by
    rintro i d ⟨hd, hbelongs⟩
    rcases hd.of_succ he with hold | hlast
    · rcases hbelongs with rfl | hsame
      · exact absurd hold.lt (Nat.lt_irrefl _)
      · rw [sameId_comm, hnew i d hold] at hsame
        cases hsame
    · exact hlast
  constructor
  · exact ⟨e, hentry, rfl, rfl⟩
  · intro i d hd hlt
    exact hnew i d ⟨hd.one_le, hlt, hd.read⟩
  · exact distinct_of_entryRow he
  · intro c hc
    refine ⟨n, e, ⟨hentry, .inl rfl⟩, hc, ?_⟩
    intro j d hd hlt
    exact absurd ((hjoins j d hd).1 ▸ hlt) (Nat.lt_irrefl _)
  · intro i d hd c hc
    rw [(hjoins i d hd).2] at hc
    exact Row.hasColumnOf_self hc

end OneMore

theorem grouped_nil (m : Message) : Grouped m 1 [] where
  gathers := List.forall_mem_nil _
  ascending := .nil
  apart := .nil
  complete := fun _ _ h => absurd h.lt (Nat.not_lt.2 h.one_le)

/-- What is the same as an entry is the same as the row that the entry belongs to. -/
theorem Gathers.sameId_of_joins {m : Message} {n first i : Nat} {r d s : Row}
    (h : Gathers m n first r) (hd : Joins m n first r i d) (hs : sameId d s = true) :
    sameId r s = true := by
  rcases hd.belongs with rfl | hsame
  · obtain ⟨f, hf, hid, -⟩ := h.founder
    have hfd : f = d := Except.ok.inj (hf.read.symm.trans hd.entry.read)
    rw [sameId_congr hid, hfd]
    exact hs
  · exact sameId_trans hsame hs

theorem Apart.map_join {batch : RowBatch} (h : Apart batch) (e : Row) :
    Apart (batch.map (join e)) := by
  rw [Apart, List.pairwise_map]
  apply h.imp
  intro r s hrs
  rw [sameId_congr (id_join e r), sameId_comm, sameId_congr (id_join e s), sameId_comm]
  exact hrs

/-- One more entry keeps the rows grouped. -/
theorem Grouped.addEntry {m : Message} {n : Nat} {rows : List (Nat × Row)} (h : Grouped m n rows)
    (hn : 1 ≤ n) {e : Row} (he : entryRow m n = .ok e) :
    ∃ rows', rows'.map Prod.snd = HeaderMapping.addEntry e (rows.map Prod.snd) ∧
      Grouped m (n + 1) rows' := by
  let joined : List (Nat × Row) := rows.map fun p => (p.1, HeaderMapping.join e p.2)
  have hsnd : joined.map Prod.snd = (rows.map Prod.snd).map (HeaderMapping.join e) := by
    simp [joined, Function.comp_def]
  have hgathers : ∀ p ∈ joined, Gathers m (n + 1) p.1 p.2 := by
    intro q hq
    obtain ⟨p, hp, rfl⟩ := List.mem_map.1 hq
    show Gathers m (n + 1) p.1 (HeaderMapping.join e p.2)
    cases hsame : sameId p.2 e with
    | true =>
      rw [join_of_sameId hsame]
      exact (h.gathers p hp).join hn he hsame
    | false =>
      rw [join_of_not_sameId hsame]
      exact (h.gathers p hp).keep he hsame
  have hascending : joined.Pairwise fun p q => p.1 < q.1 := List.pairwise_map.2 h.ascending
  have hapart : Apart (joined.map Prod.snd) := by
    rw [hsnd]
    exact h.apart.map_join e
  have hbelongs : ∀ p ∈ rows, ∀ i d, EntryBefore m (n + 1) i d → i = p.1 ∨ sameId p.2 d = true →
      ∃ q ∈ joined, Joins m (n + 1) q.1 q.2 i d := by
    intro p hp i d hd hbelongs
    have hcongr := sameId_congr (id_join e p.2) d
    exact ⟨_, List.mem_map_of_mem hp, hd, by rw [hcongr]; exact hbelongs⟩
  have hold : ∀ i d, EntryBefore m n i d → ∃ q ∈ joined, Joins m (n + 1) q.1 q.2 i d := by
    intro i d hd
    obtain ⟨p, hp, hjoins⟩ := h.complete i d hd
    exact hbelongs p hp i d hd.succ hjoins.belongs
  rw [addEntry_eq h.apart, ← hsnd]
  cases hany : (rows.map Prod.snd).any (sameId · e) with
  | true =>
    refine ⟨joined, (List.append_nil _).symm, hgathers, hascending, hapart, ?_⟩
    intro i d hd
    rcases hd.of_succ he with hbefore | ⟨rfl, rfl⟩
    · exact hold i d hbefore
    · obtain ⟨r, hr, hsame⟩ := List.any_eq_true.1 hany
      obtain ⟨p, hp, rfl⟩ := List.mem_map.1 hr
      exact hbelongs p hp i d hd (.inr hsame)
  | false =>
    have hother : ∀ p ∈ rows, sameId p.2 e = false := by
      intro p hp
      rw [← Bool.not_eq_true]
      exact List.any_eq_false.1 hany p.2 (List.mem_map_of_mem hp)
    have hnew : ∀ i d, EntryBefore m n i d → sameId d e = false := by
      intro i d hd
      obtain ⟨p, hp, hjoins⟩ := h.complete i d hd
      rw [← Bool.not_eq_true]
      intro hsame
      have hpe := (h.gathers p hp).sameId_of_joins hjoins hsame
      rw [hother p hp] at hpe
      cases hpe
    refine ⟨joined ++ [(n, e)], by simp, ?_, ?_, ?_, ?_⟩
    · intro p hp
      rcases List.mem_append.1 hp with hmem | hlast
      · exact hgathers p hmem
      · rw [List.mem_singleton.1 hlast]
        exact .found hn he hnew
    · refine List.pairwise_append.2 ⟨hascending, List.pairwise_singleton _ _, ?_⟩
      intro q hq last hlast
      obtain ⟨p, hp, rfl⟩ := List.mem_map.1 hq
      obtain ⟨f, hf, -⟩ := (h.gathers p hp).founder
      rw [List.mem_singleton.1 hlast]
      exact hf.lt
    · rw [List.map_append, Apart]
      refine List.pairwise_append.2 ⟨hapart, List.pairwise_singleton _ _, ?_⟩
      intro r hr last hlast
      obtain ⟨q, hq, rfl⟩ := List.mem_map.1 hr
      obtain ⟨p, hp, rfl⟩ := List.mem_map.1 hq
      rw [List.mem_singleton.1 hlast, sameId_congr (id_join e p.2)]
      exact hother p hp
    · intro i d hd
      rcases hd.of_succ he with hbefore | ⟨rfl, rfl⟩
      · obtain ⟨q, hq, hjoins⟩ := hold i d hbefore
        exact ⟨q, List.mem_append_left _ hq, hjoins⟩
      · exact ⟨(i, d), List.mem_append_right _ (List.mem_singleton_self _), hd, .inl rfl⟩

end HeaderMapping

end ColumnConnector
