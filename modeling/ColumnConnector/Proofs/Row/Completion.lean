import ColumnConnector.Proofs.Row.Columns
import Mathlib.Data.List.Induction

/-!
# Rows completed by models

Completing a row goes through the cells of the model one by one, and a later one finds what the
earlier ones have left: the cells of the row first, each at most with a type it did not have, and
behind them the cells that were appended (`Row.Extends`).

Three laws of merging two cells into a row carry the laws of models.  Cells of one column are as good
as one that was completed by the other (`Row.mergeCell_mergeCell`); a cell whose column is there
changes places with a cell of another column (`Row.mergeCell_comm`); a cell that comes again has no
effect (`Row.mergeCell_again`).
-/

namespace ColumnConnector

namespace Cell

/-- The cell `c'` is `c`, at most with a type that `c` leaves open and a model cell declares. -/
def CompletedBy (model : List Cell) (c c' : Cell) : Prop :=
  c' = c ∨ c.valueType = none ∧ ∃ d ∈ model, c.sameColumn d = true ∧
    c' = { c with valueType := d.valueType }

theorem sameColumn_comm (c d : Cell) : c.sameColumn d = d.sameColumn c := by
  rw [Bool.eq_iff_iff, sameColumn_iff, sameColumn_iff, eq_comm]

theorem sameColumn_congr {c d : Cell} (h : c.sameColumn d = true) (e : Cell) :
    c.sameColumn e = d.sameColumn e := by
  rw [Bool.eq_iff_iff, sameColumn_iff, sameColumn_iff, sameColumn_iff.1 h]

theorem sameColumn_apply (c d e : Cell) : (c.apply d).sameColumn e = c.sameColumn e := rfl

theorem apply_self (c : Cell) : c.apply c = c := by
  rw [apply, Option.or_self]

theorem apply_apply (c d e : Cell) : (c.apply d).apply e = c.apply (d.apply e) := by
  simp only [apply, Option.or_assoc]

/-- Nothing more comes of a model cell that comes again. -/
theorem apply_again (d e : Cell) : (d.apply e).apply d = d.apply e := by
  simp only [apply]
  cases d.valueType with
  | none => rw [Option.or_none]
  | some t => rfl

theorem CompletedBy.sameColumn {model : List Cell} {c c' : Cell} (h : c.CompletedBy model c')
    (e : Cell) : c'.sameColumn e = c.sameColumn e := by
  rcases h with rfl | ⟨-, d, -, -, rfl⟩ <;> rfl

/-- A completed cell may be completed by a further one of its column. -/
theorem CompletedBy.apply {model : List Cell} {c c' e : Cell} (h : c.CompletedBy model c')
    (he : e ∈ model) (hcolumn : c'.sameColumn e = true) : c.CompletedBy model (c'.apply e) := by
  have hce : c.sameColumn e = true := (h.sameColumn e).symm.trans hcolumn
  have hfill : c.CompletedBy model (c.apply e) := by
    cases hc : c.valueType with
    | none => exact .inr ⟨hc, e, he, hce, by rw [Cell.apply, hc, Option.none_or]⟩
    | some t => exact .inl (by rw [Cell.apply, hc, Option.some_or, ← hc])
  rcases h with rfl | ⟨hopen, d, hd, hcd, rfl⟩
  · exact hfill
  · cases ht : d.valueType with
    | none =>
      have hsame : { c with valueType := none } = c := by rw [← hopen]
      rw [hsame]
      exact hfill
    | some t => exact .inr ⟨hopen, d, hd, hcd, by rw [ht]; rfl⟩

end Cell

namespace Row

/-! ### Merging one cell -/

/-- Is a cell of the column among the cells? -/
def lists (cells : List Cell) (d : Cell) : Bool := cells.any (·.sameColumn d)

theorem lists_cons (c d : Cell) (cells : List Cell) :
    lists (c :: cells) d = (c.sameColumn d || lists cells d) := List.any_cons

theorem mergeCell_append {d : Cell} {cells : List Cell} (h : lists cells d = false)
    (rest : List Cell) : mergeCell d (cells ++ rest) = cells ++ mergeCell d rest := by
  induction cells with
  | nil => rfl
  | cons c cells ih =>
    rw [lists_cons, Bool.or_eq_false_iff] at h
    rw [List.cons_append, mergeCell, h.1, if_neg Bool.false_ne_true, ih h.2, List.cons_append]

/-- A cell of a column that is there completes one of the cells at most, and is used up. -/
theorem exists_mergeCell_append {d : Cell} {cells : List Cell} (h : lists cells d = true) :
    ∃ cells', (∀ rest, mergeCell d (cells ++ rest) = cells' ++ rest) ∧
      List.Forall₂ (fun c c' => c' = c ∨ c.sameColumn d = true ∧ c' = c.apply d) cells cells' := by
  induction cells with
  | nil => cases h
  | cons c cells ih =>
    cases hc : c.sameColumn d with
    | true =>
      refine ⟨c.apply d :: cells, fun rest => ?_, .cons (.inr ⟨hc, rfl⟩) ?_⟩
      · rw [List.cons_append, mergeCell, hc, if_pos rfl, List.cons_append]
      · exact List.forall₂_same.2 fun c _ => .inl rfl
    | false =>
      rw [lists_cons, hc, Bool.false_or] at h
      obtain ⟨cells', hmerge, hcells⟩ := ih h
      refine ⟨c :: cells', fun rest => ?_, .cons (.inl rfl) hcells⟩
      rw [List.cons_append, mergeCell, hc, if_neg Bool.false_ne_true, hmerge, List.cons_append]

theorem lists_mergeCell (d e : Cell) (cells : List Cell) :
    lists (mergeCell d cells) e = (lists cells e || d.sameColumn e) := by
  induction cells with
  | nil => exact Bool.or_comm _ _
  | cons c rest ih =>
    cases hc : c.sameColumn d with
    | true =>
      rw [mergeCell, hc, if_pos rfl, lists_cons, lists_cons, Cell.sameColumn_apply,
        Cell.sameColumn_congr hc e]
      cases d.sameColumn e <;> simp
    | false =>
      rw [mergeCell, hc, if_neg Bool.false_ne_true, lists_cons, lists_cons, ih, Bool.or_assoc]

/-! ### Merging two cells -/

/-- Merging two cells of one column, the second completes what came of the first. -/
theorem mergeCell_mergeCell {d e : Cell} (h : d.sameColumn e = true) (cells : List Cell) :
    mergeCell e (mergeCell d cells) = mergeCell (d.apply e) cells := by
  induction cells with
  | nil =>
    show mergeCell e [d] = [d.apply e]
    rw [mergeCell, h, if_pos rfl]
  | cons c rest ih =>
    have hcolumn : c.sameColumn (d.apply e) = c.sameColumn d := rfl
    have he : c.sameColumn e = c.sameColumn d := by
      rw [Cell.sameColumn_comm c e, Cell.sameColumn_comm c d, Cell.sameColumn_congr h c]
    cases hc : c.sameColumn d with
    | true =>
      rw [mergeCell, hc, if_pos rfl, mergeCell, Cell.sameColumn_apply, he, hc, if_pos rfl,
        mergeCell, hcolumn, hc, if_pos rfl, Cell.apply_apply]
    | false =>
      rw [mergeCell, hc, if_neg Bool.false_ne_true, mergeCell, he, hc, if_neg Bool.false_ne_true,
        ih, mergeCell, hcolumn, hc, if_neg Bool.false_ne_true]

/-- A cell whose column is there already does not wait for a cell of another column. -/
theorem mergeCell_comm {d e : Cell} {cells : List Cell} (hd : lists cells d = true)
    (h : e.sameColumn d = false) :
    mergeCell d (mergeCell e cells) = mergeCell e (mergeCell d cells) := by
  induction cells with
  | nil => cases hd
  | cons c rest ih =>
    cases hc : c.sameColumn d with
    | true =>
      have hce : c.sameColumn e = false := by
        rw [Cell.sameColumn_congr hc e, Cell.sameColumn_comm, h]
      rw [mergeCell, hce, if_neg Bool.false_ne_true, mergeCell, hc, if_pos rfl, mergeCell, hc,
        if_pos rfl, mergeCell, Cell.sameColumn_apply, hce, if_neg Bool.false_ne_true]
    | false =>
      rw [lists_cons, hc, Bool.false_or] at hd
      cases hce : c.sameColumn e with
      | true =>
        rw [mergeCell, hce, if_pos rfl, mergeCell, Cell.sameColumn_apply, hc,
          if_neg Bool.false_ne_true, mergeCell, hc, if_neg Bool.false_ne_true, mergeCell, hce,
          if_pos rfl]
      | false =>
        rw [mergeCell, hce, if_neg Bool.false_ne_true, mergeCell, hc, if_neg Bool.false_ne_true,
          mergeCell, hc, if_neg Bool.false_ne_true, mergeCell, hce, if_neg Bool.false_ne_true,
          ih hd]

/-- A cell that was merged has no effect when it comes again. -/
theorem mergeCell_again (d e : Cell) (cells : List Cell) :
    mergeCell d (mergeCell e (mergeCell d cells)) = mergeCell e (mergeCell d cells) := by
  cases h : e.sameColumn d with
  | true =>
    have hde : d.sameColumn e = true := by rw [Cell.sameColumn_comm, h]
    have happly : (d.apply e).sameColumn d = true := Cell.sameColumn_iff.2 rfl
    rw [mergeCell_mergeCell hde, mergeCell_mergeCell happly, Cell.apply_again]
  | false =>
    have hself : d.sameColumn d = true := Cell.sameColumn_iff.2 rfl
    have hthere : lists (mergeCell d cells) d = true := by rw [lists_mergeCell, hself, Bool.or_true]
    rw [mergeCell_comm hthere h, mergeCell_mergeCell hself, Cell.apply_self]

/-! ### Merging all cells of a model -/

/-- Merge the cells of a model, one after the other. -/
def mergeCells (model cells : List Cell) : List Cell :=
  model.foldl (fun cells d => mergeCell d cells) cells

theorem mergeCells_cons (d : Cell) (model cells : List Cell) :
    mergeCells (d :: model) cells = mergeCells model (mergeCell d cells) := rfl

/-- A model cell whose column is there does not wait for model cells of other columns. -/
theorem mergeCells_mergeCell {d : Cell} {model cells : List Cell} (hd : lists cells d = true)
    (h : lists model d = false) :
    mergeCell d (mergeCells model cells) = mergeCells model (mergeCell d cells) := by
  induction model generalizing cells with
  | nil => rfl
  | cons e rest ih =>
    rw [lists_cons, Bool.or_eq_false_iff] at h
    have hthere : lists (mergeCell e cells) d = true := by rw [lists_mergeCell, hd, Bool.true_or]
    rw [mergeCells_cons, mergeCells_cons, ih hthere h.2, mergeCell_comm hd h.1]

/-- Merging a cell after a model is merging the model that has the cell merged into it. -/
theorem mergeCell_mergeCells {model : List Cell}
    (hmodel : model.Pairwise fun c d => c.sameColumn d = false) (d : Cell) (cells : List Cell) :
    mergeCell d (mergeCells model cells) = mergeCells (mergeCell d model) cells := by
  induction model generalizing cells with
  | nil => rfl
  | cons c rest ih =>
    obtain ⟨hfirst, hrest⟩ := List.pairwise_cons.1 hmodel
    cases hc : c.sameColumn d with
    | true =>
      have hthere : lists (mergeCell c cells) d = true := by
        rw [lists_mergeCell, hc, Bool.or_true]
      have hlater : lists rest d = false := by
        rw [lists, List.any_eq_false]
        intro e he
        rw [Bool.not_eq_true, Cell.sameColumn_comm, ← Cell.sameColumn_congr hc]
        exact hfirst e he
      calc mergeCell d (mergeCells (c :: rest) cells)
          = mergeCells rest (mergeCell d (mergeCell c cells)) :=
            mergeCells_mergeCell hthere hlater
        _ = mergeCells rest (mergeCell (c.apply d) cells) := by rw [mergeCell_mergeCell hc]
        _ = mergeCells (mergeCell d (c :: rest)) cells := by rw [mergeCell, hc]; rfl
    | false =>
      calc mergeCell d (mergeCells (c :: rest) cells)
          = mergeCells (mergeCell d rest) (mergeCell c cells) := ih hrest _
        _ = mergeCells (mergeCell d (c :: rest)) cells := by rw [mergeCell, hc]; rfl

/-- Merging two models is merging the one with the other merged into it. -/
theorem mergeCells_mergeCells {model : Row} (hmodel : model.Distinct) (model' cells : List Cell) :
    mergeCells model' (mergeCells model.cells cells) =
      mergeCells (mergeCells model' model.cells) cells := by
  induction model' generalizing model with
  | nil => rfl
  | cons d rest ih =>
    have hmerged : ({ model with cells := mergeCell d model.cells } : Row).Distinct := by
      rw [distinct_iff_nodup, map_address_mergeCell, nodup_appendNew]
      exact distinct_iff_nodup.1 hmodel
    rw [mergeCells_cons, mergeCells_cons, mergeCell_mergeCells hmodel]
    exact ih hmerged

/-- What was merged has no effect when all of it comes again. -/
theorem mergeCells_again (model cells : List Cell) :
    mergeCells model (mergeCells model cells) = mergeCells model cells := by
  -- A cell without effect stays so whatever is merged afterwards.
  have hkept : ∀ (later : List Cell) (d : Cell) (cells : List Cell), mergeCell d cells = cells →
      mergeCell d (mergeCells later cells) = mergeCells later cells := by
    intro later d
    induction later with
    | nil => exact fun cells h => h
    | cons e rest ih =>
      intro cells h
      apply ih
      rw [← h, mergeCell_again]
  have hsettled : ∀ d ∈ model, mergeCell d (mergeCells model cells) = mergeCells model cells := by
    induction model generalizing cells with
    | nil => exact List.forall_mem_nil _
    | cons e rest ih =>
      have hself : e.sameColumn e = true := Cell.sameColumn_iff.2 rfl
      refine List.forall_mem_cons.2 ⟨hkept rest e _ ?_, ih _⟩
      rw [mergeCell_mergeCell hself, Cell.apply_self]
  refine List.foldlRecOn (motive := fun merged => merged = mergeCells model cells) model _ rfl ?_
  intro merged hmerged d hd
  rw [hmerged, hsettled d hd]

/-! ### What a model leaves and adds -/

/-- What has become of the cells given, and what has come behind them: cells of further columns, each
a model cell, which later model cells of its column may have completed. -/
structure Extends (model given kept added : List Cell) : Prop where
  kept : List.Forall₂ (Cell.CompletedBy model) given kept
  added : ∀ c ∈ added, ∃ d ∈ model, lists given d = false ∧ d.CompletedBy model c

/-- One more model cell completes a cell that was given, or one that was appended, or is appended
itself. -/
theorem Extends.mergeCell {model given kept added : List Cell} {e : Cell}
    (h : Extends model given kept added) (he : e ∈ model) :
    ∃ kept' added', Row.mergeCell e (kept ++ added) = kept' ++ added' ∧
      Extends model given kept' added' := by
  have hstep : ∀ c d d' : Cell, c.CompletedBy model d →
      d' = d ∨ d.sameColumn e = true ∧ d' = d.apply e → c.CompletedBy model d' := by
    rintro c d d' hd (rfl | ⟨hcolumn, rfl⟩)
    · exact hd
    · exact hd.apply he hcolumn
  cases hlists : lists kept e with
  | true =>
    obtain ⟨kept', hmerge, hcells⟩ := exists_mergeCell_append hlists
    refine ⟨kept', added, hmerge added, ?_, h.added⟩
    apply (forall₂_comp h.kept hcells).imp
    rintro c d' ⟨d, hd, hd'⟩
    exact hstep c d d' hd hd'
  | false =>
    rw [mergeCell_append hlists]
    cases hthere : lists added e with
    | true =>
      obtain ⟨added', hmerge, hcells⟩ := exists_mergeCell_append hthere
      refine ⟨kept, added', ?_, h.kept, ?_⟩
      · rw [← List.append_nil added, hmerge [], List.append_nil]
      · intro c' hc'
        obtain ⟨c, hc, hmerged⟩ := exists_mem_of_forall₂ hcells.flip hc'
        obtain ⟨d, hd, hnew, hcompleted⟩ := h.added c hc
        exact ⟨d, hd, hnew, hstep d c c' hcompleted hmerged⟩
    | false =>
      have hnew : lists given e = false := by
        rw [lists, List.any_eq_false]
        intro c hc
        obtain ⟨d, hd, hcd⟩ := exists_mem_of_forall₂ h.kept hc
        rw [← hcd.sameColumn e]
        exact List.any_eq_false.1 hlists d hd
      refine ⟨kept, added ++ [e], ?_, h.kept, ?_⟩
      · rw [← List.append_nil added, mergeCell_append hthere, List.append_nil]
        rfl
      · intro c hc
        rcases List.mem_append.1 hc with hold | hlast
        · exact h.added c hold
        · rw [List.mem_singleton.1 hlast]
          exact ⟨e, he, hnew, .inl rfl⟩

theorem exists_extends (model given : List Cell) :
    ∃ kept added, mergeCells model given = kept ++ added ∧ Extends model given kept added := by
  refine List.foldlRecOn (motive := fun cells => ∃ kept added, cells = kept ++ added ∧
    Extends model given kept added) model _ ?_ ?_
  · have hsame : List.Forall₂ (Cell.CompletedBy model) given given :=
      List.forall₂_same.2 fun c _ => .inl rfl
    exact ⟨given, [], (List.append_nil given).symm, hsame, List.forall_mem_nil _⟩
  · rintro _ ⟨kept, added, rfl, h⟩ e he
    exact h.mergeCell he

/-- A model without repeated columns has no later cell to complete an earlier one by. -/
theorem Extends.mem {model : Row} {given kept added : List Cell}
    (h : Extends model.cells given kept added) (hmodel : model.Distinct) :
    ∀ c ∈ added, c ∈ model.cells ∧ lists given c = false := by
  intro c hc
  obtain ⟨d, hd, hnew, rfl | ⟨-, e, he, hcolumn, rfl⟩⟩ := h.added c hc
  · exact ⟨hd, hnew⟩
  · have hde : d = e := List.inj_on_of_nodup_map (distinct_iff_nodup.1 hmodel) hd he
      (Cell.sameColumn_iff.1 hcolumn)
    rw [← hde]
    exact ⟨hd, hnew⟩

theorem lists_mergeCells (model cells : List Cell) (e : Cell) :
    lists (mergeCells model cells) e = (lists cells e || lists model e) := by
  induction model generalizing cells with
  | nil => exact (Bool.or_false _).symm
  | cons d rest ih => rw [mergeCells_cons, ih, lists_mergeCell, lists_cons, Bool.or_assoc]

/-- Completing a row keeps its identifier, its timestamp and, in front, its cells, of which only open
types are filled.  Behind them stand cells for exactly the model columns that the row lacked: model
cells, in which later model cells of the same column may have filled an open type.  Distinct rows stay
distinct.  A model has no effect when it comes again, and two models in a row are one model, the
second merged into the first, provided that the first names no column twice. -/
theorem apply_lawful (r m m' : Row) :
    ((r.apply m).id = r.id ∧ (r.apply m).timestamp = r.timestamp ∧
      ∃ kept added, (r.apply m).cells = kept ++ added ∧ Extends m.cells r.cells kept added ∧
        (m.Distinct → ∀ c ∈ added, c ∈ m.cells ∧ r.hasColumnOf c = false)) ∧
    (∀ d ∈ m.cells, (r.apply m).hasColumnOf d = true) ∧
    (r.Distinct → (r.apply m).Distinct) ∧
    (r.apply m).apply m = r.apply m ∧
    (m.Distinct → (r.apply m).apply m' = r.apply (m.apply m')) := by
  refine ⟨⟨rfl, rfl, ?_⟩, ?_, distinct_apply.2, ?_, ?_⟩
  · obtain ⟨kept, added, hcells, h⟩ := exists_extends m.cells r.cells
    exact ⟨kept, added, hcells, h, h.mem⟩
  · intro d hd
    have hself : lists m.cells d = true :=
      List.any_eq_true.2 ⟨d, hd, Cell.sameColumn_iff.2 rfl⟩
    show lists (mergeCells m.cells r.cells) d = true
    rw [lists_mergeCells, hself, Bool.or_true]
  · have htype : (r.rowType.or m.rowType).or m.rowType = r.rowType.or m.rowType := by
      rw [Option.or_assoc, Option.or_self]
    have hcells := mergeCells_again m.cells r.cells
    unfold apply
    rw [Row.mk.injEq]
    exact ⟨rfl, htype, rfl, hcells⟩
  · intro hm
    have htype : (r.rowType.or m.rowType).or m'.rowType = r.rowType.or (m.rowType.or m'.rowType) :=
      Option.or_assoc
    have hcells := mergeCells_mergeCells hm m'.cells r.cells
    unfold apply
    rw [Row.mk.injEq]
    exact ⟨rfl, htype, rfl, hcells⟩

/-- A row with a column completed by a model and then by one that repeats a column. -/
theorem apply_lawful_two_models :
    let c : Cell := { family := some "f", qualifier := some "q" }
    let d : Cell := { family := some "f", qualifier := some "p" }
    let r : Row := { id := some (.utf8 "r"), cells := [{ c with value := some (.utf8 "1") }] }
    let m : Row := { rowType := some .utf8, cells := [d] }
    let m' : Row := {
      cells := [{ c with valueType := some .int32 }, { d with valueType := some .bool }, c] }
    m.Distinct ∧ (r.apply m).apply m' = r.apply (m.apply m') ∧
      ((r.apply m).apply m').cells = [
        { c with value := some (.utf8 "1"), valueType := some .int32 },
        { d with valueType := some .bool }] := by
  intro c d r m m'
  have hm : m.Distinct := List.pairwise_singleton _ _
  obtain ⟨-, -, -, -, htwo⟩ := apply_lawful r m m'
  exact ⟨hm, htwo hm, rfl⟩

/-- A model that names a column twice appends a cell that is neither of the two: the first with the
type of the second. -/
theorem apply_appends_completed : ¬ ∀ r m : Row, ∃ kept added, (r.apply m).cells = kept ++ added ∧
    kept.length = r.cells.length ∧ ∀ c ∈ added, c ∈ m.cells ∧ r.hasColumnOf c = false := by
  intro h
  let c : Cell := { family := some "f", qualifier := some "q" }
  let m : Row := {
    cells := [{ c with value := some (.utf8 "42") }, { c with valueType := some .int64 }] }
  obtain ⟨kept, added, hcells, hlength, hadded⟩ := h {} m
  rw [List.length_eq_zero_iff.1 hlength, List.nil_append] at hcells
  have hmem : ({ c with value := some (.utf8 "42"), valueType := some .int64 } : Cell) ∈ added := by
    rw [← hcells]
    exact List.mem_cons_self
  have hmodel := (hadded _ hmem).1
  revert hmodel
  decide

end Row

end ColumnConnector
