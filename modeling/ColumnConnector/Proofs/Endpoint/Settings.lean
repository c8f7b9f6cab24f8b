import ColumnConnector.Endpoint.Config
import ColumnConnector.Proofs.Numbering
import ColumnConnector.Proofs.Row.Columns

/-!
# Configurations from settings

Settings are accepted when each of them that is there can be read and every column up to the first
gap has both of its names (`EndpointConfig.Acceptable`).  Then they describe one configuration
(`EndpointConfig.Describes`), and its row model has the cell of every number up to the gap that is
the first of its column.

The columns are read in turns, and after each the model holds the cells of the numbers read so far
that are the first of theirs (`EndpointConfig.HoldsUpTo.addCell`).  No other settings are looked at
(`EndpointConfig.ofSettings_congr`).
-/

namespace ColumnConnector

open Header (numbered ofColumn)
open ColumnConnector.Numbering (FirstGap Turns)

/-! ### Single settings -/

namespace Settings

variable {s : Settings} {ε α : Type}

/-- The setting is absent, or it is read as the value. -/
def Gives (s : Settings) (key : String) (read : String → Except ε α) (value : Option α) : Prop :=
  Option.Rel (fun text a => read text = .ok a) (s.get key) value

/-- The setting is absent, or it can be read. -/
def Legible (s : Settings) (key : String) (read : String → Except ε α) : Prop :=
  ∀ text, s.get key = some text → ∃ a, read text = .ok a

section Reading

variable {key : String} {read : String → Except ε α}

theorem gives_none (h : s.get key = none) {value : Option α} :
    s.Gives key read value ↔ value = none := by
  rw [Gives, h]
  constructor
  · rintro ⟨⟩
    rfl
  · rintro rfl
    exact .none

theorem gives_some {text : String} (h : s.get key = some text) {value : Option α} :
    s.Gives key read value ↔ ∃ a, read text = .ok a ∧ value = some a := by
  rw [Gives, h]
  constructor
  · rintro ⟨hread⟩
    exact ⟨_, hread, rfl⟩
  · rintro ⟨a, hread, rfl⟩
    exact .some hread

theorem exists_gives_iff : (∃ value, s.Gives key read value) ↔ s.Legible key read := by
  cases h : s.get key with
  | none => simp [gives_none h, Legible, h]
  | some text => simp [gives_some h, Legible, h]

end Reading

theorem getAs_eq_ok_iff [Readable α] {key : String} {value : Option α} :
    s.getAs α key = .ok value ↔ s.Gives key (Readable.readTrimmed α) value := by
  unfold getAs
  cases h : s.get key with
  | none =>
    rw [gives_none h]
    simp [eq_comm]
  | some text =>
    rw [gives_some h]
    cases hread : Readable.readTrimmed α text with
    | ok a => simp [hread, eq_comm]
    | error reason => simp [hread]

theorem require_eq_ok_iff {key text : String} :
    s.require key = .ok text ↔ s.get key = some text := by
  unfold require
  cases s.get key <;> simp

end Settings

namespace EndpointConfig

variable {s s' : Settings} {n i : Nat} {c : Cell}

theorem readOperation_eq_ok_iff {operation : Option Operation} :
    readOperation s = .ok operation ↔ s.Gives "operation" Operation.read operation := by
  unfold readOperation
  cases h : s.get "operation" with
  | none =>
    rw [Settings.gives_none h]
    simp [eq_comm]
  | some text =>
    rw [Settings.gives_some h]
    cases hread : Operation.read text with
    | ok op => simp [hread, eq_comm]
    | error fault => simp [hread]

/-! ### Single columns -/

/-- The column of a number, either part of which may be missing. -/
def columnAt (s : Settings) (i : Nat) : Option String × Option String :=
  (s.get (numbered "family" i), s.get (numbered "qualifier" i))

/-- Both parts of the column are there. -/
def Named (s : Settings) (i : Nat) : Prop :=
  ∃ f q, columnAt s i = (some f, some q)

/-- The cell has the column and the type of the number, and nothing else. -/
structure OfNumber (s : Settings) (i : Nat) (c : Cell) : Prop where
  column : c.address = columnAt s i
  valueType : s.Gives (numbered "value.type" i) (Readable.readTrimmed ValueType) c.valueType
  value : c.value = none
  timestamp : c.timestamp = none

theorem modelCell_eq_ok_iff : modelCell s i = .ok c ↔ Named s i ∧ OfNumber s i c := by
  unfold modelCell Named
  cases hfamily : s.get (numbered "family" i) with
  | none =>
    constructor
    · intro h
      cases h
    · rintro ⟨⟨f, q, hcolumn⟩, -⟩
      rw [columnAt, hfamily] at hcolumn
      cases (Prod.mk.inj hcolumn).1
  | some f =>
    cases hqualifier : s.get (numbered "qualifier" i) with
    | none =>
      constructor
      · intro h
        cases h
      · rintro ⟨⟨f', q, hcolumn⟩, -⟩
        rw [columnAt, hqualifier] at hcolumn
        cases (Prod.mk.inj hcolumn).2
    | some q =>
      have hcolumn : columnAt s i = (some f, some q) := by rw [columnAt, hfamily, hqualifier]
      constructor
      · intro h
        obtain ⟨valueType, htype, h⟩ := bind_eq_ok_iff.1 h
        cases h
        exact ⟨⟨f, q, hcolumn⟩, hcolumn.symm, Settings.getAs_eq_ok_iff.1 htype, rfl, rfl⟩
      · rintro ⟨-, hc⟩
        obtain ⟨haddress, htype, hvalue, htime⟩ := hc
        refine bind_eq_ok_iff.2 ⟨c.valueType, Settings.getAs_eq_ok_iff.2 htype, ?_⟩
        rw [hcolumn] at haddress
        obtain ⟨hf, hq⟩ := Prod.mk.inj haddress
        cases c
        cases hf
        cases hq
        cases hvalue
        cases htime
        rfl

theorem exists_modelCell_iff : (∃ c, modelCell s i = .ok c) ↔
    Named s i ∧ s.Legible (numbered "value.type" i) (Readable.readTrimmed ValueType) := by
  simp only [modelCell_eq_ok_iff, exists_and_left, ← Settings.exists_gives_iff]
  refine and_congr_right fun _ => ⟨fun ⟨c, hc⟩ => ⟨c.valueType, hc.valueType⟩, ?_⟩
  rintro ⟨valueType, htype⟩
  exact ⟨⟨(columnAt s i).1, (columnAt s i).2, none, valueType, none⟩, rfl, htype, rfl, rfl⟩

/-- Each column has a name of its own among the settings. -/
theorem le_size_of_hasColumn (h : ∀ i, 1 ≤ i → i ≤ n → hasColumn s i = true) :
    n ≤ s.properties.size := by
  have hnames : ∀ name ∈ ["family", "qualifier"], name ∈ ofColumn := by decide
  have hplain : ∀ name ∈ ["family", "qualifier"], Header.Plain name :=
    fun name hname => Header.plain_of_mem_ofColumn name (hnames name hname)
  exact Numbering.le_size_of_names hplain fun i hi hle => List.any_eq_true.1 (h i hi hle)

theorem exists_firstGap (s : Settings) :
    ∃ n, FirstGap (hasColumn s) n ∧ n ≤ s.properties.size + 1 :=
  Numbering.exists_firstGap fun _ => le_size_of_hasColumn

theorem columnNumbers_eq (h : FirstGap (hasColumn s) n) :
    columnNumbers s = List.range' 1 (n - 1) :=
  h.takeWhile_range' fun _ => le_size_of_hasColumn

/-! ### The first of each column -/

/-- No smaller number has the column. -/
def IsFirst (s : Settings) (i : Nat) : Prop := ∀ j < i, 1 ≤ j → columnAt s j ≠ columnAt s i

instance : DecidablePred (IsFirst s) := fun i =>
  inferInstanceAs (Decidable (∀ j < i, 1 ≤ j → columnAt s j ≠ columnAt s i))

/-- The numbers before `n` that are the first of their column. -/
def firsts (s : Settings) (n : Nat) : List Nat :=
  (List.range' 1 (n - 1)).filter fun i => IsFirst s i

theorem mem_firsts : i ∈ firsts s n ↔ 1 ≤ i ∧ i < n ∧ IsFirst s i := by
  rw [firsts, List.mem_filter, List.mem_range'_1, decide_eq_true_eq, and_assoc]
  refine and_congr_right fun hi => and_congr_left fun _ => ?_
  omega

theorem firsts_succ (hn : 1 ≤ n) :
    firsts s (n + 1) = firsts s n ++ if IsFirst s n then [n] else [] := by
  have hrange : List.range' 1 (n + 1 - 1) = List.range' 1 (n - 1) ++ [n] := by
    rw [show n + 1 - 1 = n - 1 + 1 from by omega, List.range'_concat,
      show 1 + 1 * (n - 1) = n from by omega]
  rw [firsts, hrange, List.filter_append, firsts]
  congr 1
  by_cases h : IsFirst s n <;> simp [h]

/-- The least number of a column is the first of it. -/
theorem exists_isFirst (hi : 1 ≤ i) :
    ∃ j, 1 ≤ j ∧ j ≤ i ∧ IsFirst s j ∧ columnAt s j = columnAt s i := by
  induction i using Nat.strongRecOn with
  | _ i ih =>
    by_cases hfirst : IsFirst s i
    · exact ⟨i, hi, Nat.le_refl i, hfirst, rfl⟩
    · unfold IsFirst at hfirst
      simp only [not_forall, not_not] at hfirst
      obtain ⟨j, hlt, hj, hcolumn⟩ := hfirst
      obtain ⟨k, hk, hle, hfirst, hsame⟩ := ih j hlt hj
      exact ⟨k, hk, by omega, hfirst, hsame.trans hcolumn⟩

/-- The row holds the cells of the numbers before `i` that are the first of their column. -/
def HoldsUpTo (s : Settings) (i : Nat) (r : Row) : Prop :=
  List.Forall₂ (OfNumber s) (firsts s i) r.cells

/-- A further cell is appended if its number is the first of the column, else left out. -/
theorem HoldsUpTo.addCell {r : Row} (h : HoldsUpTo s i r) (hi : 1 ≤ i) (hc : OfNumber s i c) :
    HoldsUpTo s (i + 1) (r.addCell c) := by
  have hthere : r.hasColumnOf c = true ↔ ¬ IsFirst s i := by
    rw [Row.hasColumnOf_iff, List.mem_map]
    constructor
    · rintro ⟨d, hd, haddress⟩ hfirst
      obtain ⟨j, hj, hdj⟩ := exists_mem_of_forall₂ h.flip hd
      obtain ⟨hone, hlt, -⟩ := mem_firsts.1 hj
      exact hfirst j hlt hone (by rw [← hdj.column, haddress, hc.column])
    · intro hnot
      obtain ⟨j, hone, hle, hfirst, hcolumn⟩ := exists_isFirst (s := s) hi
      have hne : j ≠ i := by
        rintro rfl
        exact hnot hfirst
      obtain ⟨d, hd, hjd⟩ := exists_mem_of_forall₂ h (mem_firsts.2 ⟨hone, by omega, hfirst⟩)
      exact ⟨d, hd, by rw [hjd.column, hcolumn, hc.column]⟩
  unfold HoldsUpTo Row.addCell
  rw [firsts_succ hi]
  by_cases hfirst : IsFirst s i
  · rw [if_pos hfirst, if_neg (by rw [hthere]; exact not_not_intro hfirst)]
    exact List.rel_append h (.cons hc .nil)
  · rw [if_neg hfirst, if_pos (hthere.2 hfirst), List.append_nil]
    exact h

/-! ### All columns -/

theorem holdsUpTo_of_turns {r : Row} {outcome : Except ConnectorError Row}
    (h : Turns (hasColumn s) (modelCell s) Row.addCell i r outcome)
    (hgap : FirstGap (hasColumn s) n) (hi : 1 ≤ i) (hle : i ≤ n) (hr : HoldsUpTo s i r)
    {model : Row} (hmodel : outcome = .ok model) :
    HoldsUpTo s n model ∧ model.id = r.id ∧ model.rowType = r.rowType ∧
      model.timestamp = r.timestamp := by
  induction h with
  | gap hnone =>
    cases hmodel
    rw [← hgap.eq_of_gap hi hle hnone]
    exact ⟨hr, rfl, rfl, rfl⟩
  | fails _ _ => cases hmodel
  | @next i r c _ hsome hread _ ih =>
    have hc := (modelCell_eq_ok_iff.1 hread).2
    obtain ⟨hholds, hid, htype, htime⟩ :=
      ih (by omega) (hgap.lt_of_there hle hsome) (hr.addCell hi hc) hmodel
    have hkept : (r.addCell c).id = r.id ∧ (r.addCell c).rowType = r.rowType ∧
        (r.addCell c).timestamp = r.timestamp := by
      unfold Row.addCell
      split <;> exact ⟨rfl, rfl, rfl⟩
    exact ⟨hholds, hid.trans hkept.1, htype.trans hkept.2.1, htime.trans hkept.2.2⟩

/-- The columns are read in turns that end at the gap or at the first column that cannot be read. -/
theorem turns_readModel_iff (hgap : FirstGap (hasColumn s) n) {rowType : Option ValueType}
    (htype : s.getAs ValueType "row.type" = .ok rowType) {outcome : Except ConnectorError Row} :
    Turns (hasColumn s) (modelCell s) Row.addCell 1 { rowType } outcome ↔
      outcome = readModel s := by
  have hmodel : readModel s = (fun cells => cells.foldl Row.addCell { rowType }) <$>
      (List.range' 1 (n - 1)).mapM (modelCell s) := by
    rw [readModel, htype, columnNumbers_eq hgap]
    rfl
  rw [hmodel]
  exact Numbering.turns_iff hgap

theorem exists_readModel_iff (hgap : FirstGap (hasColumn s) n) :
    (∃ model, readModel s = .ok model) ↔
      s.Legible "row.type" (Readable.readTrimmed ValueType) ∧
        ∀ i, 1 ≤ i → i < n →
          Named s i ∧ s.Legible (numbered "value.type" i) (Readable.readTrimmed ValueType) := by
  have hcolumns : (∃ cells, (columnNumbers s).mapM (modelCell s) = .ok cells) ↔
      ∀ i, 1 ≤ i → i < n →
        Named s i ∧ s.Legible (numbered "value.type" i) (Readable.readTrimmed ValueType) := by
    rw [exists_mapM_ok_iff, columnNumbers_eq hgap]
    simp only [exists_modelCell_iff, List.mem_range'_1]
    have hone := hgap.one_le
    constructor
    · exact fun h i hi hlt => h i ⟨hi, by omega⟩
    · exact fun h i hi => h i hi.1 (by omega)
  rw [← hcolumns, ← Settings.exists_gives_iff]
  constructor
  · rintro ⟨model, hmodel⟩
    obtain ⟨rowType, htype, hmodel⟩ := bind_eq_ok_iff.1 hmodel
    obtain ⟨cells, hcells, -⟩ := bind_eq_ok_iff.1 hmodel
    exact ⟨⟨rowType, Settings.getAs_eq_ok_iff.1 htype⟩, cells, hcells⟩
  · rintro ⟨⟨rowType, htype⟩, cells, hcells⟩
    exact ⟨_, bind_eq_ok_iff.2 ⟨rowType, Settings.getAs_eq_ok_iff.2 htype,
      bind_eq_ok_iff.2 ⟨cells, hcells, rfl⟩⟩⟩

/-! ### Whole configurations -/

/-- Each setting that is there can be read, those that must be there are, and the columns before the
number `n` have both of their names. -/
structure Acceptable (s : Settings) (n : Nat) : Prop where
  table : ∃ text, s.get "table" = some text
  operation : s.Legible "operation" Operation.read
  maxResults : s.Legible "max.results" (Readable.readTrimmed UInt64)
  poolSize : ∀ text, s.get "pool.max.size" = some text →
    ∃ size, Readable.readTrimmed UInt64 text = .ok size ∧ 1 ≤ size
  rowType : s.Legible "row.type" (Readable.readTrimmed ValueType)
  columns : ∀ i, 1 ≤ i → i < n →
    Named s i ∧ s.Legible (numbered "value.type" i) (Readable.readTrimmed ValueType)

/-- The setting is read as the value, or it is absent and the value is the standard one. -/
def GivesOr (s : Settings) (key : String) (standard value : UInt64) : Prop :=
  ∃ given, s.Gives key (Readable.readTrimmed UInt64) given ∧ value = given.getD standard

/-- The configuration has what the settings give, and in its row model the columns before the
number `n`, each once. -/
structure Describes (s : Settings) (n : Nat) (c : EndpointConfig) : Prop where
  table : s.get "table" = some c.table
  operation : s.Gives "operation" Operation.read c.operation
  maxResults : GivesOr s "max.results" standardMaxResults c.maxResults
  poolSize : GivesOr s "pool.max.size" standardPoolSize c.poolSize
  strategyName : c.strategyName = s.get "mapping.strategy.name"
  strategyClass : c.strategyClass = s.get "mapping.strategy.class.name"
  rowId : c.rowModel.id = none
  rowType : s.Gives "row.type" (Readable.readTrimmed ValueType) c.rowModel.rowType
  rowTimestamp : c.rowModel.timestamp = none
  cells : HoldsUpTo s n c.rowModel

/-- The steps of a reading that succeeds. -/
theorem ofSettings_eq_ok_iff {c : EndpointConfig} :
    ofSettings s = .ok c ↔
      s.get "table" = some c.table ∧ s.Gives "operation" Operation.read c.operation ∧
      GivesOr s "max.results" standardMaxResults c.maxResults ∧
      GivesOr s "pool.max.size" standardPoolSize c.poolSize ∧ c.poolSize ≠ 0 ∧
      readModel s = .ok c.rowModel ∧ c.strategyName = s.get "mapping.strategy.name" ∧
      c.strategyClass = s.get "mapping.strategy.class.name" := by
  constructor
  · intro h
    obtain ⟨table, htable, h⟩ := bind_eq_ok_iff.1 h
    obtain ⟨operation, hoperation, h⟩ := bind_eq_ok_iff.1 h
    obtain ⟨maxResults, hmax, h⟩ := bind_eq_ok_iff.1 h
    obtain ⟨poolSize, hpool, h⟩ := bind_eq_ok_iff.1 h
    by_cases hzero : poolSize.getD standardPoolSize = 0
    · rw [if_pos hzero] at h
      cases h
    · rw [if_neg hzero] at h
      obtain ⟨rowModel, hmodel, h⟩ := bind_eq_ok_iff.1 h
      cases h
      exact ⟨Settings.require_eq_ok_iff.1 htable, readOperation_eq_ok_iff.1 hoperation,
        ⟨maxResults, Settings.getAs_eq_ok_iff.1 hmax, rfl⟩,
        ⟨poolSize, Settings.getAs_eq_ok_iff.1 hpool, rfl⟩, hzero, hmodel, rfl, rfl⟩
  · rintro ⟨htable, hoperation, ⟨maxResults, hmax, hmaxResults⟩, ⟨poolSize, hpool, hpoolSize⟩,
      hzero, hmodel, hname, hclass⟩
    refine bind_eq_ok_iff.2 ⟨c.table, Settings.require_eq_ok_iff.2 htable, ?_⟩
    refine bind_eq_ok_iff.2 ⟨c.operation, readOperation_eq_ok_iff.2 hoperation, ?_⟩
    refine bind_eq_ok_iff.2 ⟨maxResults, Settings.getAs_eq_ok_iff.2 hmax, ?_⟩
    refine bind_eq_ok_iff.2 ⟨poolSize, Settings.getAs_eq_ok_iff.2 hpool, ?_⟩
    rw [← hpoolSize, ← hmaxResults, if_neg hzero]
    refine bind_eq_ok_iff.2 ⟨c.rowModel, hmodel, ?_⟩
    rw [← hname, ← hclass]
    rfl

/-- A pool of the standard size has handles, so only a size that is given can be refused. -/
theorem exists_poolSize_iff :
    (∃ size, GivesOr s "pool.max.size" standardPoolSize size ∧ size ≠ 0) ↔
      ∀ text, s.get "pool.max.size" = some text →
        ∃ size, Readable.readTrimmed UInt64 text = .ok size ∧ 1 ≤ size := by
  have hone : ∀ size : UInt64, size ≠ 0 ↔ 1 ≤ size := by
    intro size
    rw [Ne, ← UInt64.toNat_inj, UInt64.le_iff_toNat_le]
    simp only [UInt64.toNat_zero, UInt64.toNat_one]
    omega
  unfold GivesOr
  cases h : s.get "pool.max.size" with
  | none =>
    refine iff_of_true ⟨standardPoolSize, ⟨none, (Settings.gives_none h).2 rfl, rfl⟩, by decide⟩ ?_
    intro text htext
    cases htext
  | some text =>
    simp only [Settings.gives_some h]
    constructor
    · rintro ⟨size, ⟨_, ⟨_, hread, rfl⟩, rfl⟩, hne⟩ text' htext
      rw [← Option.some.inj htext]
      exact ⟨size, hread, (hone size).1 hne⟩
    · intro hall
      obtain ⟨size, hread, hle⟩ := hall text rfl
      exact ⟨size, ⟨some size, ⟨size, hread, rfl⟩, rfl⟩, (hone size).2 hle⟩

theorem exists_ofSettings_iff (hgap : FirstGap (hasColumn s) n) :
    (∃ c, ofSettings s = .ok c) ↔ Acceptable s n := by
  constructor
  · rintro ⟨c, hc⟩
    obtain ⟨htable, hoperation, ⟨maxResults, hmax, -⟩, hpool, hzero, hmodel, -, -⟩ :=
      ofSettings_eq_ok_iff.1 hc
    obtain ⟨hrowType, hcolumns⟩ := (exists_readModel_iff hgap).1 ⟨_, hmodel⟩
    exact ⟨⟨_, htable⟩, Settings.exists_gives_iff.1 ⟨_, hoperation⟩,
      Settings.exists_gives_iff.1 ⟨_, hmax⟩, exists_poolSize_iff.1 ⟨_, hpool, hzero⟩, hrowType,
      hcolumns⟩
  · rintro ⟨⟨table, htable⟩, hoperation, hmax, hpool, hrowType, hcolumns⟩
    obtain ⟨operation, hoperation⟩ := Settings.exists_gives_iff.2 hoperation
    obtain ⟨maxResults, hmax⟩ := Settings.exists_gives_iff.2 hmax
    obtain ⟨poolSize, hpool, hzero⟩ := exists_poolSize_iff.2 hpool
    obtain ⟨rowModel, hmodel⟩ := (exists_readModel_iff hgap).2 ⟨hrowType, hcolumns⟩
    let c : EndpointConfig := {
      table, operation, poolSize, rowModel
      maxResults := maxResults.getD standardMaxResults
      strategyName := s.get "mapping.strategy.name"
      strategyClass := s.get "mapping.strategy.class.name" }
    exact ⟨c, ofSettings_eq_ok_iff.2
      ⟨htable, hoperation, ⟨maxResults, hmax, rfl⟩, hpool, hzero, hmodel, rfl, rfl⟩⟩

theorem describes_of_ofSettings (hgap : FirstGap (hasColumn s) n) {c : EndpointConfig}
    (h : ofSettings s = .ok c) : Describes s n c := by
  obtain ⟨htable, hoperation, hmax, hpool, -, hmodel, hname, hclass⟩ := ofSettings_eq_ok_iff.1 h
  obtain ⟨rowType, htype, -⟩ := bind_eq_ok_iff.1 hmodel
  have hstart : HoldsUpTo s 1 { rowType } := .nil
  obtain ⟨hcells, hid, hrowType, htime⟩ := holdsUpTo_of_turns
    ((turns_readModel_iff hgap htype).2 rfl) hgap (Nat.le_refl 1) hgap.one_le hstart hmodel
  refine ⟨htable, hoperation, hmax, hpool, hname, hclass, hid, ?_, htime, hcells⟩
  rw [hrowType]
  exact Settings.getAs_eq_ok_iff.1 htype

/-! ### What is looked at -/

/-- The names of the settings that have no number. -/
def single : List String :=
  ["table", "operation", "max.results", "mapping.strategy.name", "mapping.strategy.class.name",
    "pool.max.size", "row.type"]

/-- The same texts stand under the names without a number and under those with a number before `n`,
and no column has the number `n` itself. -/
structure SameUpTo (n : Nat) (s s' : Settings) : Prop where
  single : ∀ key ∈ single, s'.get key = s.get key
  columns : ∀ i, 1 ≤ i → i < n → ∀ name ∈ ofColumn,
    s'.get (numbered name i) = s.get (numbered name i)
  gap : hasColumn s' n = false

theorem getAs_congr {α : Type} [Readable α] {key : String} (h : s'.get key = s.get key) :
    s'.getAs α key = s.getAs α key := by
  rw [Settings.getAs, h, Settings.getAs]

theorem readModel_congr (hgap : FirstGap (hasColumn s) n) (h : SameUpTo n s s') :
    readModel s' = readModel s := by
  have hcolumn : ∀ i, 1 ≤ i → i < n →
      hasColumn s' i = hasColumn s i ∧ modelCell s' i = modelCell s i := by
    intro i hi hlt
    have hfamily := h.columns i hi hlt "family" (by decide)
    have hqualifier := h.columns i hi hlt "qualifier" (by decide)
    have htype := h.columns i hi hlt "value.type" (by decide)
    constructor
    · simp only [hasColumn, List.any_cons, List.any_nil, hfamily, hqualifier]
    · rw [modelCell, hfamily, hqualifier, getAs_congr htype, modelCell]
  have hgap' : FirstGap (hasColumn s') n :=
    ⟨hgap.one_le, fun i hi hlt => (hcolumn i hi hlt).1.trans (hgap.there i hi hlt), h.gap⟩
  have hcells : (List.range' 1 (n - 1)).mapM (modelCell s') =
      (List.range' 1 (n - 1)).mapM (modelCell s) := by
    refine mapM_congr fun i hi => ?_
    rw [List.mem_range'_1] at hi
    exact (hcolumn i hi.1 (by omega)).2
  rw [readModel, getAs_congr (h.single "row.type" (by decide)), columnNumbers_eq hgap', hcells,
    ← columnNumbers_eq hgap, readModel]

theorem ofSettings_congr (hgap : FirstGap (hasColumn s) n) (h : SameUpTo n s s') :
    ofSettings s' = ofSettings s := by
  have htable : s'.require "table" = s.require "table" := by
    rw [Settings.require, h.single "table" (by decide), Settings.require]
  have hoperation : readOperation s' = readOperation s := by
    rw [readOperation, h.single "operation" (by decide), readOperation]
  rw [ofSettings, htable, hoperation, getAs_congr (h.single "max.results" (by decide)),
    getAs_congr (h.single "pool.max.size" (by decide)), readModel_congr hgap h,
    h.single "mapping.strategy.name" (by decide),
    h.single "mapping.strategy.class.name" (by decide), ofSettings]

/-- The columns end at a first gap, no further away than there are settings, and reading them turn by
turn comes to an end with what `readModel` gives.  The settings are read as a configuration if and
only if they are acceptable up to the gap; the configuration has the columns before the gap, each
once and in order; and what stands under other names does not count. -/
theorem ofSettings_up_to_gap (s : Settings) :
    ∃ n, FirstGap (hasColumn s) n ∧ n ≤ s.properties.size + 1 ∧
      (∀ rowType, s.getAs ValueType "row.type" = .ok rowType → ∀ outcome,
        Turns (hasColumn s) (modelCell s) Row.addCell 1 { rowType } outcome ↔
          outcome = readModel s) ∧
      ((∃ c, ofSettings s = .ok c) ↔ Acceptable s n) ∧
      (∀ c, ofSettings s = .ok c → Describes s n c) ∧
      ∀ s', SameUpTo n s s' → ofSettings s' = ofSettings s := by
  obtain ⟨n, hgap, hle⟩ := exists_firstGap s
  exact ⟨n, hgap, hle, fun _ htype _ => turns_readModel_iff hgap htype, exists_ofSettings_iff hgap,
    fun _ hc => describes_of_ofSettings hgap hc, fun _ hsame => ofSettings_congr hgap hsame⟩

/-- The type of a repeated column is passed over, and what comes behind the gap need not be
complete. -/
theorem ofSettings_up_to_gap_repeated_column :
    let s : Settings := { connectorType := "hbase", properties := .ofList [("table", "t"),
      ("family", "f"), ("qualifier", "q"), ("family2", "f"), ("qualifier2", "q"),
      ("value.type2", "int64"), ("family4", "g")] }
    FirstGap (hasColumn s) 3 ∧ Acceptable s 3 ∧ ∃ c, ofSettings s = .ok c ∧ Describes s 3 c ∧
      c.rowModel.cells = [{ family := some "f", qualifier := some "q" }] := by
  intro s
  have hthree : FirstGap (hasColumn s) 3 := by
    have hcolumn : ∀ i < 3, 1 ≤ i → hasColumn s i = true := by decide +kernel
    exact ⟨by decide, fun i hi hlt => hcolumn i hlt hi, by decide +kernel⟩
  have hread : (ofSettings s).toOption.map (·.rowModel.cells) =
      some [{ family := some "f", qualifier := some "q" }] := by decide +kernel
  obtain ⟨c, hc, hcells⟩ := Option.map_eq_some_iff.1 hread
  obtain ⟨n, hgap, -, -, hacceptable, hdescribes, -⟩ := ofSettings_up_to_gap s
  cases hthree.unique hgap
  have hok := eq_ok_of_toOption hc
  exact ⟨hthree, hacceptable.1 ⟨c, hok⟩, c, hok, hdescribes c hok, hcells⟩

end EndpointConfig

end ColumnConnector
