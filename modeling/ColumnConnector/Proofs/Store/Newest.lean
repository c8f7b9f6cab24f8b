import ColumnConnector.Proofs.Store.Reading

/-!
# The newest versions

A get of one version finds the newest version of every column it asks for
(`Table.mem_get_iff`, `Table.get_column`).  Where the puts of a flush are for different rows and the
cells of each for different columns, no write of the flush covers another, so that every cell
written is the newest version of its column afterwards (`View.putAll_newest`).  In any case a version
that a column has after a flush was there before or is of one of the puts (`View.mem_putAll`).
-/

namespace ColumnConnector

open Std

/-! ### Writing -/

namespace View

theorem foldl_prepend_untouched (limit : Nat) (time : Int64) (key : Bytes) (v : View)
    (cells : List (Column × Bytes)) {column : Column} (h : column ∉ cells.map Prod.fst) :
    cells.foldl (prepend limit time key) v key column = v key column := by
  induction cells generalizing v with
  | nil => rfl
  | cons cell rest ih =>
    rw [List.map_cons, List.mem_cons, not_or] at h
    rw [List.foldl_cons, ih _ h.2]
    exact if_neg fun hand => h.1 hand.2

theorem put_untouched (limit : Nat) (v : View) (stamped : Put × Int64) {key : Bytes}
    {column : Column} (h : stamped.1.row = key → column ∉ stamped.1.cells.map Prod.fst) :
    put limit v stamped key column = v key column := by
  by_cases hkey : stamped.1.row = key
  · rw [put, ← hkey]
    exact foldl_prepend_untouched limit stamped.2 stamped.1.row v stamped.1.cells (h hkey)
  · rw [put, foldl_prepend_other limit stamped.2 stamped.1.row key v stamped.1.cells
      (Ne.symm hkey)]

/-- A column that no put names keeps its versions. -/
theorem putAll_untouched (limit : Nat) (v : View) (stamped : List (Put × Int64)) {key : Bytes}
    {column : Column}
    (h : ∀ e ∈ stamped, e.1.row = key → column ∉ e.1.cells.map Prod.fst) :
    putAll limit v stamped key column = v key column := by
  induction stamped generalizing v with
  | nil => rfl
  | cons e rest ih =>
    have hrest := ih (put limit v e) fun e' he' => h e' (List.mem_cons_of_mem e he')
    rw [putAll, List.foldl_cons]
    exact hrest.trans (put_untouched limit v e (h e List.mem_cons_self))

theorem foldl_prepend_newest (limit : Nat) (time : Int64) (key : Bytes) (v : View)
    {cells : List (Column × Bytes)} (hcells : cells.Pairwise fun c d => c.1 ≠ d.1)
    {cell : Column × Bytes} (hmem : cell ∈ cells) :
    cells.foldl (prepend limit time key) v key cell.1 =
      ((time, cell.2) :: v key cell.1).take limit := by
  induction cells generalizing v with
  | nil => exact absurd hmem List.not_mem_nil
  | cons first rest ih =>
    obtain ⟨hfirst, hrest⟩ := List.pairwise_cons.1 hcells
    rw [List.foldl_cons]
    rcases List.mem_cons.1 hmem with rfl | hmem
    · have hnot : cell.1 ∉ rest.map Prod.fst := by
        intro hin
        obtain ⟨other, hother, heq⟩ := List.mem_map.1 hin
        exact hfirst other hother heq.symm
      rw [foldl_prepend_untouched _ _ _ _ _ hnot]
      exact if_pos ⟨rfl, rfl⟩
    · have hother : prepend limit time key v first key cell.1 = v key cell.1 :=
        if_neg fun hand => hfirst cell hmem hand.2.symm
      rw [ih _ hrest hmem, hother]

/-- Each cell of puts for different rows is the newest version of its column afterwards. -/
theorem putAll_newest (limit : Nat) (v : View) {stamped : List (Put × Int64)}
    (hrows : stamped.Pairwise fun e e' => e.1.row ≠ e'.1.row) {e : Put × Int64} (he : e ∈ stamped)
    (hcells : e.1.cells.Pairwise fun c d => c.1 ≠ d.1) {cell : Column × Bytes}
    (hcell : cell ∈ e.1.cells) :
    putAll limit v stamped e.1.row cell.1 =
      ((e.2, cell.2) :: v e.1.row cell.1).take limit := by
  induction stamped generalizing v with
  | nil => exact absurd he List.not_mem_nil
  | cons first rest ih =>
    obtain ⟨hfirst, hrest⟩ := List.pairwise_cons.1 hrows
    show putAll limit (put limit v first) rest e.1.row cell.1 = _
    rcases List.mem_cons.1 he with rfl | he
    · rw [putAll_untouched limit _ rest fun e' he' heq => absurd heq.symm (hfirst e' he')]
      exact foldl_prepend_newest limit e.2 e.1.row v hcells hcell
    · have hother : put limit v first e.1.row cell.1 = v e.1.row cell.1 :=
        put_untouched limit v first fun heq => absurd heq (hfirst e he)
      rw [ih _ hrest he, hother]

end View

/-! ### Where versions come from -/

namespace View

theorem mem_foldl_prepend {limit : Nat} {time : Int64} {key key' : Bytes} {v : View}
    {cells : List (Column × Bytes)} {column : Column} {version : Int64 × Bytes}
    (h : version ∈ cells.foldl (prepend limit time key) v key' column) :
    version ∈ v key' column ∨ (column, version.2) ∈ cells := by
  induction cells generalizing v with
  | nil => exact .inl h
  | cons cell rest ih =>
    rw [List.foldl_cons] at h
    rcases ih h with hprepended | hrest
    · rw [prepend] at hprepended
      split at hprepended
      · next hhere =>
        rcases List.mem_cons.1 (List.mem_of_mem_take hprepended) with rfl | hold
        · rw [hhere.2]
          exact .inr List.mem_cons_self
        · exact .inl hold
      · exact .inl hprepended
    · exact .inr (List.mem_cons_of_mem cell hrest)

/-- A version was there before, or it is of one of the puts. -/
theorem mem_putAll {limit : Nat} {v : View} {stamped : List (Put × Int64)} {key : Bytes}
    {column : Column} {version : Int64 × Bytes} (h : version ∈ putAll limit v stamped key column) :
    version ∈ v key column ∨ ∃ e ∈ stamped, (column, version.2) ∈ e.1.cells := by
  induction stamped generalizing v with
  | nil => exact .inl h
  | cons e rest ih =>
    rcases ih h with hput | ⟨e', he', hcell⟩
    · rcases mem_foldl_prepend hput with hold | hcell
      · exact .inl hold
      · exact .inr ⟨e, List.mem_cons_self, hcell⟩
    · exact .inr ⟨e', List.mem_cons_of_mem e he', hcell⟩

end View

/-! ### Reading -/

/-- The time of a row that is read: that of the newest version of the least wanted column that has
versions. -/
inductive RowTime (versions : Column → Versions) (wanted : Column → Prop) :
    Option Int64 → Prop where
  | absent : (∀ column, wanted column → versions column = []) → RowTime versions wanted none
  | least {column : Column} {v : Int64 × Bytes} {older : Versions} :
      wanted column → versions column = v :: older →
      (∀ other, wanted other → versions other ≠ [] → (compare column other).isLE = true) →
      RowTime versions wanted (some v.1)

theorem RowTime.unique {versions : Column → Versions} {wanted : Column → Prop}
    {time time' : Option Int64} (h : RowTime versions wanted time)
    (h' : RowTime versions wanted time') : time = time' := by
  cases h with
  | absent hnone =>
    cases h' with
    | absent => rfl
    | least hwanted hversions => exact absurd (hversions.symm.trans (hnone _ hwanted)) (by simp)
  | @least c v older hwanted hversions hleast =>
    cases h' with
    | absent hnone => exact absurd (hversions.symm.trans (hnone _ hwanted)) (by simp)
    | @least d w older' hwanted' hversions' hleast' =>
      have hle : (compare c d).isLE = true := hleast d hwanted' (by simp [hversions'])
      have hge : (compare d c).isLE = true := hleast' c hwanted (by simp [hversions])
      have heq : c = d := LawfulEqOrd.eq_of_compare (OrientedCmp.isLE_antisymm hle hge)
      rw [heq, hversions'] at hversions
      rw [(List.cons.inj hversions).1]

namespace Table

/-- A get of one version finds exactly the newest versions of the columns it asks for. -/
theorem mem_get_iff (t : Table) {g : Get} (hone : g.maxVersions = 1) (kv : KeyValue) :
    kv ∈ (t.get g).cells ↔ ∃ c v older, g.Asks c ∧ t.versions g.row c = v :: older ∧
      kv = .ofVersion g.row c v := by
  obtain ⟨columns, -, hcolumns, hholds⟩ := t.get_holds g
  rw [hholds.perm.mem_iff, View.cells, List.mem_flatMap, hone]
  constructor
  · rintro ⟨c, hc, hkv⟩
    obtain ⟨hask, hne⟩ := (hcolumns c).1 hc
    obtain ⟨v, older, hversions⟩ := List.exists_cons_of_ne_nil hne
    rw [hversions, List.take_succ_cons, List.take_zero, List.map_singleton,
      List.mem_singleton] at hkv
    exact ⟨c, v, older, hask, hversions, hkv⟩
  · rintro ⟨c, v, older, hask, hversions, hkv⟩
    have hne : t.versions g.row c ≠ [] := by
      rw [hversions]
      exact List.cons_ne_nil v older
    refine ⟨c, (hcolumns c).2 ⟨hask, hne⟩, ?_⟩
    rw [hversions, hkv]
    exact List.mem_singleton.2 rfl

/-- A get of one version finds of a column the newest version. -/
theorem get_column (t : Table) {g : Get} (hone : g.maxVersions = 1) {c : Column} (hask : g.Asks c)
    {v : Int64 × Bytes} {older : Versions} (hversions : t.versions g.row c = v :: older) :
    ((t.get g).column c.family c.qualifier).head? = some (.ofVersion g.row c v) := by
  have hmem : KeyValue.ofVersion g.row c v ∈ (t.get g).column c.family c.qualifier := by
    refine List.mem_filter.2 ⟨(t.mem_get_iff hone _).2 ⟨c, v, older, hask, hversions, rfl⟩, ?_⟩
    exact KeyValue.isOf_ofVersion.2 rfl
  have hall : ∀ kv ∈ (t.get g).column c.family c.qualifier, kv = .ofVersion g.row c v := by
    intro kv hkv
    obtain ⟨hin, hof⟩ := List.mem_filter.1 hkv
    obtain ⟨d, w, rest, -, hd, rfl⟩ := (t.mem_get_iff hone kv).1 hin
    rw [KeyValue.isOf_ofVersion.1 hof] at hd ⊢
    rw [hversions] at hd
    rw [(List.cons.inj hd).1]
  cases hfound : (t.get g).column c.family c.qualifier with
  | nil =>
    rw [hfound] at hmem
    exact absurd hmem List.not_mem_nil
  | cons kv rest =>
    rw [List.head?_cons, hall kv (by rw [hfound]; exact List.mem_cons_self)]

/-- A column without versions is not among what a get finds. -/
theorem get_column_nil (t : Table) {g : Get} (hone : g.maxVersions = 1) {c : Column}
    (hversions : t.versions g.row c = []) : (t.get g).column c.family c.qualifier = [] := by
  rw [List.eq_nil_iff_forall_not_mem]
  intro kv hkv
  obtain ⟨hin, hof⟩ := List.mem_filter.1 hkv
  obtain ⟨d, v, older, -, hd, rfl⟩ := (t.mem_get_iff hone kv).1 hin
  rw [KeyValue.isOf_ofVersion.1 hof, hversions] at hd
  cases hd

/-- What a get finds first of a column is the newest version, if there is one. -/
theorem head?_column_get (t : Table) {g : Get} (hone : g.maxVersions = 1) {c : Column}
    (hask : g.Asks c) :
    ((t.get g).column c.family c.qualifier).head? =
      (t.versions g.row c).head?.map (KeyValue.ofVersion g.row c) := by
  cases hversions : t.versions g.row c with
  | nil =>
    rw [t.get_column_nil hone hversions]
    rfl
  | cons v older => exact t.get_column hone hask hversions

/-- What a get of one version finds carries the time of its least column. -/
theorem get_rowTime (t : Table) {g : Get} (hone : g.maxVersions = 1) :
    RowTime (t.versions g.row) g.Asks (t.get g).timestamp := by
  obtain ⟨columns, -, -, hholds⟩ := t.get_holds g
  have hordered := hholds.ordered
  have hmem := t.mem_get_iff hone
  rw [StoreResult.timestamp]
  cases hcells : (t.get g).cells with
  | nil =>
    refine .absent fun c hask => ?_
    by_contra hne
    obtain ⟨v, older, hversions⟩ := List.exists_cons_of_ne_nil hne
    have hfound := (hmem _).2 ⟨c, v, older, hask, hversions, rfl⟩
    rw [hcells] at hfound
    exact absurd hfound List.not_mem_nil
  | cons kv rest =>
    rw [hcells] at hordered
    obtain ⟨c, v, older, hask, hversions, rfl⟩ := (hmem kv).1 (by rw [hcells]; simp)
    refine .least hask hversions fun d hd hne => ?_
    obtain ⟨w, older', hversions'⟩ := List.exists_cons_of_ne_nil hne
    have hfound := (hmem _).2 ⟨d, w, older', hd, hversions', rfl⟩
    rw [hcells] at hfound
    rcases List.mem_cons.1 hfound with hsame | hlater
    · have heq : d = c := by
        apply KeyValue.isOf_ofVersion.1
        rw [hsame]
        exact KeyValue.isOf_ofVersion.2 rfl
      rw [heq, ReflOrd.compare_self]
      rfl
    · exact StoreResult.isLE_of_inOrder ((List.pairwise_cons.1 hordered).1 _ hlater)

/-- The timestamp of what a get finds, where all newest versions are of one time. -/
theorem get_timestamp (t : Table) {g : Get} (hone : g.maxVersions = 1) {time : Int64}
    (hfound : (t.get g).cells ≠ [])
    (htime : ∀ c v older, g.Asks c → t.versions g.row c = v :: older → v.1 = time) :
    (t.get g).timestamp = some time := by
  obtain ⟨kv, rest, hcells⟩ := List.exists_cons_of_ne_nil hfound
  have hkv : kv ∈ (t.get g).cells := by
    rw [hcells]
    exact List.mem_cons_self
  obtain ⟨c, v, older, hask, hversions, rfl⟩ := (t.mem_get_iff hone kv).1 hkv
  rw [StoreResult.timestamp, hcells]
  exact congrArg some (htime c v older hask hversions)

end Table

end ColumnConnector
