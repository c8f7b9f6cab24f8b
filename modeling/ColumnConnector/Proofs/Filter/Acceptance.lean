import ColumnConnector.Proofs.Filter.Matching

/-!
# What a matching template accepts

A template that matches columns looks at the newest value of every column for which the row has a
value, and compares the two.  It does no more than compare: where nothing is stored in the column
there is nothing to differ, and the test is passed.

So of the stored rows that hold all these columns the filter accepts those that agree with the
template everywhere; but it also accepts rows that hold some of the columns only
(`FilterTemplate.columnMatching_accepts_iff`).
-/

namespace ColumnConnector

/-- Some cell of the row is of the column and has a value with this stored form. -/
def Row.Wants (r : Row) (column : Column) (raw : Bytes) : Prop :=
  ∃ c ∈ r.cells, ∃ family qualifier v, c.family = some family ∧ c.qualifier = some qualifier ∧
    c.value = some v ∧ column = ⟨Utf8.encode family, Utf8.encode qualifier⟩ ∧ raw = v.encode

/-- Of the versions of a column that are among the cells this is the newest. -/
def KeyValue.NewestOf (cells : List KeyValue) (column : Column) (kv : KeyValue) : Prop :=
  Newest (cells.filter (·.isOf column.family column.qualifier)) kv

theorem KeyValue.exists_newestOf_iff {cells : List KeyValue} {column : Column} :
    (∃ kv, NewestOf cells column kv) ↔
      ∃ kv ∈ cells, kv.isOf column.family column.qualifier = true := by
  refine ⟨?_, ?_⟩
  · intro ⟨kv, hnewest⟩
    exact ⟨kv, List.mem_filter.1 hnewest.mem⟩
  · intro ⟨kv, hmem, hof⟩
    exact exists_newest (List.ne_nil_of_mem (List.mem_filter.2 ⟨hmem, hof⟩))

namespace FilterTemplate

theorem mem_tests_iff {r : Row} {test : Filter} :
    test ∈ r.cells.filterMap cellTest? ↔ ∃ column raw, r.Wants column raw ∧
      test = .columnValue column.family column.qualifier .equal raw := by
  simp only [List.mem_filterMap, cellTest?_eq_some_iff, Row.Wants]
  refine ⟨?_, ?_⟩
  · intro ⟨c, hc, family, qualifier, v, hfamily, hqualifier, hvalue, htest⟩
    exact ⟨_, _, ⟨c, hc, family, qualifier, v, hfamily, hqualifier, hvalue, rfl, rfl⟩, htest⟩
  · rintro ⟨_, _, ⟨c, hc, family, qualifier, v, hfamily, hqualifier, hvalue, rfl, rfl⟩, htest⟩
    exact ⟨c, hc, family, qualifier, v, hfamily, hqualifier, hvalue, htest⟩

/-- The filter bound to a template accepts a row when no newest value differs from one that the
template has for the column.  That the row agrees with the template everywhere means that it is
accepted and, in addition, that it holds every column for which the template has a value. -/
theorem columnMatching_accepts_iff (template : Row) (key : Bytes) (cells : List KeyValue) :
    ∃ bind filter, columnMatching.binding? = some bind ∧ bind template = .ok filter ∧
      (filter.accepts key cells = true ↔ ∀ column raw, template.Wants column raw →
        ∀ kv, KeyValue.NewestOf cells column kv → kv.value = raw) ∧
      ((∀ column raw, template.Wants column raw →
          ∃ kv, KeyValue.NewestOf cells column kv ∧ kv.value = raw) ↔
        filter.accepts key cells = true ∧ ∀ column raw, template.Wants column raw →
          ∃ kv ∈ cells, kv.isOf column.family column.qualifier = true) := by
  have haccepts : (Filter.all (template.cells.filterMap cellTest?)).accepts key cells = true ↔
      ∀ column raw, template.Wants column raw →
        ∀ kv, KeyValue.NewestOf cells column kv → kv.value = raw := by
    rw [Filter.accepts_all_iff]
    simp only [mem_tests_iff]
    refine ⟨?_, ?_⟩
    · intro h column raw hwants kv hnewest
      have htest := h _ ⟨column, raw, hwants, rfl⟩
      exact Filter.accepts_columnValue_equal_iff.1 htest kv (KeyValue.latest_of_newest hnewest)
    · rintro h test ⟨column, raw, hwants, rfl⟩
      apply Filter.accepts_columnValue_equal_iff.2
      intro kv hlatest
      exact h column raw hwants kv (KeyValue.latest_eq_some_iff.1 hlatest)
  refine ⟨_, _, rfl, rfl, haccepts, ?_⟩
  rw [haccepts]
  refine ⟨?_, ?_⟩
  · intro hagrees
    refine ⟨?_, ?_⟩
    · intro column raw hwants kv hnewest
      obtain ⟨kv', hnewest', hvalue⟩ := hagrees column raw hwants
      have hsame := KeyValue.latest_of_newest hnewest
      rw [KeyValue.latest_of_newest hnewest'] at hsame
      cases hsame
      exact hvalue
    · intro column raw hwants
      obtain ⟨kv, hnewest, -⟩ := hagrees column raw hwants
      exact KeyValue.exists_newestOf_iff.1 ⟨kv, hnewest⟩
  · intro ⟨hsame, hheld⟩ column raw hwants
    obtain ⟨kv, hnewest⟩ := KeyValue.exists_newestOf_iff.2 (hheld column raw hwants)
    exact ⟨kv, hnewest, hsame column raw hwants kv hnewest⟩

/-- A row with the second column only is accepted by a template with values for two columns. -/
theorem columnMatching_accepts_without_column :
    let template : Row := { cells := [
      { family := some "f", qualifier := some "a", value := some (.utf8 "x") },
      { family := some "f", qualifier := some "b", value := some (.utf8 "y") }] }
    let cells : List KeyValue := [⟨[114], [102], [98], 1, [121]⟩]
    ∃ bind filter, columnMatching.binding? = some bind ∧ bind template = .ok filter ∧
      filter.accepts [114] cells = true ∧ template.Wants ⟨[102], [97]⟩ [120] ∧
      ¬ ∃ kv, KeyValue.NewestOf cells ⟨[102], [97]⟩ kv ∧ kv.value = [120] := by
  intro template cells
  refine ⟨_, _, rfl, rfl, by decide +kernel, ?_, ?_⟩
  · exact ⟨_, List.mem_cons_self, "f", "a", .utf8 "x", rfl, rfl, rfl, rfl, rfl⟩
  · rintro ⟨kv, hnewest, -⟩
    exact absurd hnewest.mem List.not_mem_nil

end FilterTemplate

end ColumnConnector
