import ColumnConnector.Proofs.Filter.Matching
import Mathlib.Logic.Relation

/-!
# What a verdict depends on

A column test reads one stored value, and it is the one that a result made of the same cells gives
for the column: bringing cells into store order keeps the versions of one time in their places
(`KeyValue.filter_mergeSort`), and only the order among those decides which version is the latest
(`KeyValue.latest_congr`).  So a filter depends on its cells through the latest version of each
column that it names, which `Filter.accepts_congr` proves by induction on the tree.

A list depends on the set of its members' verdicts (`ListOperator.combine_congr`), the empty list
being the one that has none.  Permuting and repeating members keeps that set, at every depth.
-/

namespace ColumnConnector

/-! ### Versions of one time decide -/

namespace KeyValue

theorem Newest.timestamp_le {cells : List KeyValue} {kv other : KeyValue} (h : Newest cells kv)
    (hmem : other ∈ cells) : other.timestamp ≤ kv.timestamp := by
  obtain ⟨before, after, rfl, hbefore, hafter⟩ := h
  rcases List.mem_append.1 hmem with hmem | hmem
  · exact hbefore other hmem
  · rcases List.mem_cons.1 hmem with rfl | hmem
    · exact Int64.le_refl _
    · exact Int64.le_of_lt (hafter other hmem)

/-- The newest of some versions is the last of those of its time. -/
theorem Newest.getLast?_tied {cells : List KeyValue} {kv : KeyValue} (h : Newest cells kv) :
    (cells.filter fun other => other.timestamp = kv.timestamp).getLast? = some kv := by
  obtain ⟨before, after, rfl, -, hafter⟩ := h
  have hnone : after.filter (fun other => other.timestamp = kv.timestamp) = [] := by
    rw [List.filter_eq_nil_iff]
    intro other hother
    simpa using Int64.ne_of_lt (hafter other hother)
  rw [List.filter_append, List.filter_cons_of_pos (by simp), hnone, List.getLast?_concat]

/-- The latest version depends on the versions of each time, in their order; how the times mix does
not matter. -/
theorem latest_congr {cells cells' : List KeyValue}
    (h : ∀ time, cells.filter (fun kv => kv.timestamp = time) =
      cells'.filter fun kv => kv.timestamp = time) : latest cells = latest cells' := by
  have hmem : ∀ kv, kv ∈ cells ↔ kv ∈ cells' := by
    intro kv
    have htied := congrArg (kv ∈ ·) (h kv.timestamp)
    simpa using htied
  by_cases hempty : cells = []
  · have hempty' : cells' = [] := by
      rw [List.eq_nil_iff_forall_not_mem]
      intro kv hkv
      simpa [hempty] using (hmem kv).2 hkv
    rw [hempty, hempty']
  · obtain ⟨kv, hkv⟩ := exists_newest hempty
    obtain ⟨kv', hkv'⟩ := exists_newest (List.ne_nil_of_mem ((hmem kv).1 hkv.mem))
    have htime : kv.timestamp = kv'.timestamp :=
      Int64.le_antisymm (hkv'.timestamp_le ((hmem kv).1 hkv.mem))
        (hkv.timestamp_le ((hmem kv').2 hkv'.mem))
    have hsame : some kv = some kv' := by
      calc some kv = (cells.filter fun other => other.timestamp = kv.timestamp).getLast? :=
            hkv.getLast?_tied.symm
        _ = (cells'.filter fun other => other.timestamp = kv'.timestamp).getLast? := by
            rw [h, htime]
        _ = some kv' := hkv'.getLast?_tied
    rw [latest_of_newest hkv, latest_of_newest hkv', hsame]

/-- Sorting keeps the places of elements that are in order anyway. -/
theorem filter_mergeSort {cells : List KeyValue} {keep : KeyValue → Bool}
    (h : (cells.filter keep).Pairwise fun a b => StoreResult.inOrder a b) :
    (cells.mergeSort StoreResult.inOrder).filter keep = cells.filter keep := by
  have hsub : (cells.filter keep).Sublist (cells.mergeSort StoreResult.inOrder) :=
    List.sublist_mergeSort StoreResult.inOrder_trans StoreResult.inOrder_total h
      List.filter_sublist
  have hkept : (cells.filter keep).Sublist ((cells.mergeSort StoreResult.inOrder).filter keep) := by
    simpa using hsub.filter keep
  have hlength := ((cells.mergeSort_perm StoreResult.inOrder).filter keep).length_eq
  exact (hkept.eq_of_length hlength.symm).symm

/-- The latest version of a column is the same in store order. -/
theorem latest_mergeSort (cells : List KeyValue) (family qualifier : Bytes) :
    latest ((cells.mergeSort StoreResult.inOrder).filter (·.isOf family qualifier)) =
      latest (cells.filter (·.isOf family qualifier)) := by
  apply latest_congr
  intro time
  rw [List.filter_filter, List.filter_filter]
  apply filter_mergeSort
  -- Versions of one column and one time are in order both ways.
  apply List.pairwise_of_forall_mem_list
  intro a ha b hb
  simp only [isOf, List.mem_filter, Bool.and_eq_true, decide_eq_true_eq] at ha hb
  obtain ⟨-, hatime, hafamily, haqualifier⟩ := ha
  obtain ⟨-, hbtime, hbfamily, hbqualifier⟩ := hb
  rw [StoreResult.inOrder, StoreResult.order, hatime, hafamily, haqualifier, hbtime, hbfamily,
    hbqualifier, Std.ReflOrd.compare_self, Std.ReflOrd.compare_self, Std.ReflOrd.compare_self]
  rfl

/-- No two of the cells are versions of one column and one time. -/
def Separate (cells : List KeyValue) : Prop :=
  cells.Pairwise fun a b =>
    a.family = b.family → a.qualifier = b.qualifier → a.timestamp ≠ b.timestamp

instance : DecidablePred Separate := fun cells =>
  inferInstanceAs (Decidable (cells.Pairwise fun a b =>
    a.family = b.family → a.qualifier = b.qualifier → a.timestamp ≠ b.timestamp))

theorem Separate.perm {cells cells' : List KeyValue} (h : Separate cells)
    (hperm : cells.Perm cells') : Separate cells' := by
  refine hperm.pairwise h ?_
  intro a b hab hfamily hqualifier htime
  exact hab hfamily.symm hqualifier.symm htime.symm

/-- There is one version of a column and a time at most. -/
theorem Separate.tied {cells : List KeyValue} (h : Separate cells) (time : Int64)
    (family qualifier : Bytes) :
    (cells.filter fun kv => decide (kv.timestamp = time) && kv.isOf family qualifier).Pairwise
      fun _ _ => False := by
  refine (h.filter _).imp_of_mem ?_
  intro a b ha hb hab
  simp only [isOf, List.mem_filter, Bool.and_eq_true, decide_eq_true_eq] at ha hb
  obtain ⟨-, hatime, hafamily, haqualifier⟩ := ha
  obtain ⟨-, hbtime, hbfamily, hbqualifier⟩ := hb
  exact hab (hafamily.trans hbfamily.symm) (haqualifier.trans hbqualifier.symm)
    (hatime.trans hbtime.symm)

theorem latest_perm {cells cells' : List KeyValue} (hperm : cells.Perm cells')
    (hseparate : Separate cells) (family qualifier : Bytes) :
    latest (cells'.filter (·.isOf family qualifier)) =
      latest (cells.filter (·.isOf family qualifier)) := by
  apply latest_congr
  intro time
  rw [List.filter_filter, List.filter_filter]
  exact List.Perm.eq_of_pairwise (fun _ _ _ _ hle => hle.elim)
    ((hseparate.perm hperm).tied time family qualifier) (hseparate.tied time family qualifier)
    (hperm.symm.filter _)

end KeyValue

namespace Filter

/-! ### Lists of filters -/

/-- The two ways to combine filters. -/
inductive ListOperator where
  | all
  | any
deriving DecidableEq, Repr

namespace ListOperator

def list : ListOperator → List Filter → Filter
  | all => .all
  | any => .any

/-- The verdict of a list from those of its members. -/
def combine : ListOperator → List Bool → Bool
  | all, verdicts => verdicts.all id
  | any, verdicts => verdicts.isEmpty || verdicts.any id

theorem accepts_list (op : ListOperator) (key : Bytes) (cells : List KeyValue)
    (filters : List Filter) :
    (op.list filters).accepts key cells = op.combine (filters.map (accepts key cells)) := by
  cases op with
  | all =>
    rw [list, accepts, acceptsAll_eq_all, combine, List.all_map]
    rfl
  | any =>
    cases filters with
    | nil => rfl
    | cons f rest =>
      show acceptsAny key cells (f :: rest) = _
      rw [acceptsAny_eq_any, combine, List.any_map]
      rfl

/-- It matters which verdicts there are, and not in which order or how often. -/
theorem combine_congr (op : ListOperator) {verdicts verdicts' : List Bool}
    (h : ∀ verdict, verdict ∈ verdicts ↔ verdict ∈ verdicts') :
    op.combine verdicts = op.combine verdicts' := by
  rw [Bool.eq_iff_iff]
  cases op with
  | all => simp [combine, h]
  | any =>
    have hempty : verdicts = [] ↔ verdicts' = [] := by
      simp only [List.eq_nil_iff_forall_not_mem, h]
    simp [combine, h, hempty]

end ListOperator

/-- A filter is a column test, a test of the key, or a list of filters. -/
@[elab_as_elim]
theorem inductionOn {motive : Filter → Prop} (f : Filter)
    (column : ∀ family qualifier op operand required,
      motive (.column family qualifier op operand required))
    (keyStart : ∀ start, motive (.keyStart start))
    (list : ∀ (op : ListOperator) (filters : List Filter), (∀ f ∈ filters, motive f) →
      motive (op.list filters)) : motive f :=
  @Filter.rec motive (fun filters => ∀ f ∈ filters, motive f) column keyStart
    (list .all) (list .any) (fun _ hmem => absurd hmem List.not_mem_nil)
    (fun _ _ hfirst hrest => List.forall_mem_cons.2 ⟨hfirst, hrest⟩) f

/-! ### The columns that a filter names -/

/-- A test of the filter, at any depth, is on the column. -/
inductive Names : Filter → Column → Prop
  | column {family qualifier op operand required} :
    Names (.column family qualifier op operand required) ⟨family, qualifier⟩
  | all {filters f c} : f ∈ filters → Names f c → Names (.all filters) c
  | any {filters f c} : f ∈ filters → Names f c → Names (.any filters) c

theorem Names.list {op : ListOperator} {filters : List Filter} {f : Filter} {c : Column}
    (hmem : f ∈ filters) (h : f.Names c) : (op.list filters).Names c := by
  cases op with
  | all => exact .all hmem h
  | any => exact .any hmem h

/-- A filter looks at the latest versions of the columns that it names, and at nothing else of the
cells. -/
theorem accepts_congr {key : Bytes} {cells cells' : List KeyValue} {f : Filter}
    (h : ∀ c, f.Names c → KeyValue.latest (cells.filter (·.isOf c.family c.qualifier)) =
      KeyValue.latest (cells'.filter (·.isOf c.family c.qualifier))) :
    f.accepts key cells = f.accepts key cells' := by
  induction f using inductionOn with
  | column family qualifier op operand required =>
    have hlatest := h ⟨family, qualifier⟩ .column
    simp only [accepts, hlatest]
  | keyStart start => rfl
  | list op filters ih =>
    have hmembers : filters.map (accepts key cells) = filters.map (accepts key cells') := by
      apply List.map_congr_left
      intro f hf
      exact ih f hf fun c hc => h c (.list hf hc)
    rw [op.accepts_list, op.accepts_list, hmembers]

/-- A column test compares the value that a result made of the cells has for the column. -/
theorem accepts_column (key : Bytes) (cells : List KeyValue) (family qualifier : Bytes)
    (op : CompareOp) (operand : Bytes) (required : Bool) :
    (column family qualifier op operand required).accepts key cells =
      match (StoreResult.ofCells key cells).value family qualifier with
      | some value => op.accepts (compare value operand)
      | none => !required := by
  rw [StoreResult.value, StoreResult.columnLatest, StoreResult.column, StoreResult.ofCells,
    KeyValue.latest_mergeSort, accepts]
  cases KeyValue.latest (cells.filter (·.isOf family qualifier)) with
  | none => rfl
  | some kv => rfl

/-! ### Rearranged trees -/

/-- One list somewhere in the tree has its members permuted or one of them repeated. -/
inductive Rearranges : Filter → Filter → Prop
  | permuted (op : ListOperator) {filters filters' : List Filter} : filters.Perm filters' →
    Rearranges (op.list filters) (op.list filters')
  | repeated (op : ListOperator) {filters : List Filter} {f : Filter} : f ∈ filters →
    Rearranges (op.list filters) (op.list (f :: filters))
  | inside (op : ListOperator) (before after : List Filter) {f f' : Filter} : Rearranges f f' →
    Rearranges (op.list (before ++ f :: after)) (op.list (before ++ f' :: after))

theorem Rearranges.accepts_eq {f f' : Filter} (h : f.Rearranges f') (key : Bytes)
    (cells : List KeyValue) : f.accepts key cells = f'.accepts key cells := by
  induction h with
  | permuted op hperm =>
    rw [op.accepts_list, op.accepts_list]
    exact op.combine_congr fun _ => (hperm.map _).mem_iff
  | @repeated op filters f hmem =>
    have hverdict : f.accepts key cells ∈ filters.map (accepts key cells) :=
      List.mem_map_of_mem hmem
    rw [op.accepts_list, op.accepts_list]
    apply op.combine_congr
    intro verdict
    rw [List.map_cons, List.mem_cons]
    refine ⟨.inr, ?_⟩
    rintro (rfl | hmem)
    · exact hverdict
    · exact hmem
  | inside op before after _ ih =>
    rw [op.accepts_list, op.accepts_list, List.map_append, List.map_append, List.map_cons,
      List.map_cons, ih]

/-- Any number of rearrangements, also undone ones, leave the verdict as it is. -/
theorem accepts_eq_of_eqvGen {f f' : Filter} (h : Relation.EqvGen Rearranges f f') (key : Bytes)
    (cells : List KeyValue) : f.accepts key cells = f'.accepts key cells := by
  induction h with
  | rel _ _ hstep => exact hstep.accepts_eq key cells
  | refl _ => rfl
  | symm _ _ _ ih => exact ih.symm
  | trans _ _ _ _ _ hfirst hsecond => exact hfirst.trans hsecond

end Filter

/-! ### Opposite comparisons -/

namespace CompareOp

/-- The comparison that holds exactly when this one does not. -/
def opposite : CompareOp → CompareOp
  | .less => .greaterOrEqual
  | .lessOrEqual => .greater
  | .equal => .notEqual
  | .notEqual => .equal
  | .greaterOrEqual => .less
  | .greater => .lessOrEqual

theorem accepts_opposite (op : CompareOp) (o : Ordering) :
    op.opposite.accepts o = !op.accepts o := by
  cases op <;> cases o <;> rfl

end CompareOp

namespace Filter

/-- With the column there, opposite tests part, whatever either of them says of rows without it. -/
theorem accepts_column_opposite {cells : List KeyValue} {family qualifier : Bytes}
    (h : ∃ kv ∈ cells, kv.isOf family qualifier = true) (key : Bytes) (op : CompareOp)
    (operand : Bytes) (required required' : Bool) :
    (column family qualifier op.opposite operand required').accepts key cells =
      !(column family qualifier op operand required).accepts key cells := by
  obtain ⟨present, hmem, hof⟩ := h
  obtain ⟨kv, -, hlatest⟩ :=
    KeyValue.exists_latest (List.ne_nil_of_mem (List.mem_filter.2 ⟨hmem, hof⟩))
  rw [accepts, accepts, hlatest]
  exact op.accepts_opposite _

/-- A column test compares the newest value of the column as a result made of the cells gives it.
A filter gives cells in another order the same verdict, unless two versions of one column share a
timestamp, and so does a filter with the members of its lists permuted or repeated, at any depth.
Opposite tests of a column that is there never agree. -/
theorem accepts_canonical (key : Bytes) (cells : List KeyValue) :
    (∀ family qualifier op operand required,
      (column family qualifier op operand required).accepts key cells =
        match (StoreResult.ofCells key cells).value family qualifier with
        | some value => op.accepts (compare value operand)
        | none => !required) ∧
    (∀ (f : Filter) (cells' : List KeyValue), cells.Perm cells' → KeyValue.Separate cells →
      f.accepts key cells' = f.accepts key cells) ∧
    (∀ f f' : Filter, Relation.EqvGen Rearranges f f' →
      f'.accepts key cells = f.accepts key cells) ∧
    ∀ family qualifier, (∃ kv ∈ cells, kv.isOf family qualifier = true) →
      ∀ op operand required required',
        (column family qualifier op.opposite operand required').accepts key cells ≠
          (column family qualifier op operand required).accepts key cells := by
  refine ⟨accepts_column key cells, ?_, ?_, ?_⟩
  · intro f cells' hperm hseparate
    exact accepts_congr fun c _ => KeyValue.latest_perm hperm hseparate c.family c.qualifier
  · intro f f' h
    exact (accepts_eq_of_eqvGen h key cells).symm
  · intro family qualifier hpresent op operand required required'
    rw [accepts_column_opposite hpresent key op operand required required']
    exact Bool.not_ne_self _

/-- A disjunction in a conjunction, with its members exchanged and one of them repeated, on a row
whose versions come in either order. -/
theorem accepts_canonical_nested :
    let old : KeyValue := ⟨[114], [102], [113], 1, [5]⟩
    let new : KeyValue := ⟨[114], [102], [113], 2, [9]⟩
    let below : Filter := .column [102] [113] .less [7] true
    let above : Filter := .column [102] [113] .greaterOrEqual [7] false
    let start : Filter := .keyStart [114]
    (Filter.all [start, .any [below, above]]).accepts [114] [new, old] =
        (Filter.all [start, .any [below, above]]).accepts [114] [old, new] ∧
      (Filter.all [start, .any [above, above, below]]).accepts [114] [old, new] =
        (Filter.all [start, .any [below, above]]).accepts [114] [old, new] ∧
      above.accepts [114] [old, new] ≠ below.accepts [114] [old, new] ∧
      (Filter.all [start, .any [below, above]]).accepts [114] [old, new] = true := by
  intro old new below above start
  obtain ⟨-, hperm, hlists, hopposite⟩ := accepts_canonical [114] [old, new]
  have hexchanged : Rearranges (.any [below, above]) (.any [above, below]) :=
    .permuted .any (.swap above below [])
  have hrepeated : Rearranges (.any [above, below]) (.any [above, above, below]) :=
    .repeated .any List.mem_cons_self
  have hinside : Relation.EqvGen Rearranges (.all [start, .any [below, above]])
      (.all [start, .any [above, above, below]]) :=
    .trans _ _ _ (.rel _ _ (.inside .all [start] [] hexchanged))
      (.rel _ _ (.inside .all [start] [] hrepeated))
  exact ⟨hperm _ _ (.swap new old []) (by decide), hlists _ _ hinside,
    hopposite [102] [113] ⟨old, List.mem_cons_self, by decide⟩ .less [7] true false,
    by decide +kernel⟩

end Filter

end ColumnConnector
