import ColumnConnector.Proofs.Filter.Matching

/-!
# Templates bound to a row

What a scan filters by depends on the bindings among its templates.  Their order decides which
failure is reported (`FilterTemplate.bindAll_eq_error_iff`) and nothing else: once all of them
succeed, a row passes when each of them passes it (`FilterTemplate.accepts_of_bindAll`).  Without
templates there is no filter, with fixed ones only there is an empty list, and both pass every row.
-/

namespace ColumnConnector

/-- What a scan with or without a filter makes of a row. -/
def Filter.passes (filter : Option Filter) (key : Bytes) (cells : List KeyValue) : Bool :=
  filter.all fun f => f.accepts key cells

/-- A scan depends on its filter through the rows that pass. -/
theorem Table.scan_congr {filter filter' : Option Filter}
    (h : ∀ key cells, Filter.passes filter key cells = Filter.passes filter' key cells) (t : Table)
    (start : Option Bytes) (columns : List Column) :
    t.scan { start, columns, filter } = t.scan { start, columns, filter := filter' } := by
  have hreturns : ({ start, columns, filter } : Scan).returns =
      ({ start, columns, filter := filter' } : Scan).returns := by
    funext row
    show (_ && (_ && Filter.passes filter _ _)) = (_ && (_ && Filter.passes filter' _ _))
    rw [h]
    rfl
  rw [scan_eq, scan_eq, hreturns]
  rfl

namespace FilterTemplate

theorem binding?_eq_some_iff {template : FilterTemplate} {bind : Row → Except ConversionError Filter} :
    template.binding? = some bind ↔ template = .modelAware bind := by
  cases template <;> simp [binding?]

theorem mem_bindings_iff {templates : List FilterTemplate}
    {bind : Row → Except ConversionError Filter} :
    bind ∈ templates.filterMap binding? ↔ .modelAware bind ∈ templates := by
  simp [List.mem_filterMap, binding?_eq_some_iff]

variable {templates : List FilterTemplate} {row : Row}

theorem bindAll_of_ne_nil (h : templates ≠ []) :
    bindAll templates row = (fun filters => some (.all filters)) <$>
      (templates.filterMap binding?).mapM fun bind => bind row := by
  rw [bindAll, List.isEmpty_eq_false_iff.2 h]
  rfl

/-- Binding fails where going through the bindings does. -/
theorem bindAll_eq_error_iff_mapM {e : ConversionError} :
    bindAll templates row = .error e ↔
      (templates.filterMap binding?).mapM (fun bind => bind row) = .error e := by
  by_cases hempty : templates = []
  · subst hempty
    constructor <;> intro h <;> cases h
  · rw [bindAll_of_ne_nil hempty]
    cases (templates.filterMap binding?).mapM fun bind => bind row with
    | error e' =>
      constructor <;> intro h <;> cases h <;> rfl
    | ok filters =>
      constructor <;> intro h <;> cases h

/-- The first binding that fails decides the failure. -/
theorem bindAll_eq_error_iff {e : ConversionError} :
    bindAll templates row = .error e ↔ ∃ before bind after,
      templates = before ++ .modelAware bind :: after ∧
        (∀ b, .modelAware b ∈ before → ∃ filter, b row = .ok filter) ∧ bind row = .error e := by
  rw [bindAll_eq_error_iff_mapM, mapM_eq_error_iff]
  constructor
  · rintro ⟨before, bind, after, hsplit, hbefore, hbind⟩
    obtain ⟨first, rest, rfl, rfl, hrest⟩ := List.filterMap_eq_append_iff.1 hsplit
    obtain ⟨fixed, template, last, rfl, hfixed, htemplate, -⟩ :=
      List.filterMap_eq_cons_iff.1 hrest
    obtain rfl := binding?_eq_some_iff.1 htemplate
    refine ⟨first ++ fixed, bind, last, by simp, ?_, hbind⟩
    intro b hb
    rcases List.mem_append.1 hb with hb | hb
    · exact hbefore b (mem_bindings_iff.2 hb)
    · cases hfixed _ hb
  · rintro ⟨before, bind, after, rfl, hbefore, hbind⟩
    refine ⟨before.filterMap binding?, bind, after.filterMap binding?, ?_, ?_, hbind⟩
    · rw [List.filterMap_append, List.filterMap_cons]
      rfl
    · intro b hb
      exact hbefore b (mem_bindings_iff.1 hb)

theorem exists_bindAll_error_iff :
    (∃ e, bindAll templates row = .error e) ↔
      ∃ bind, .modelAware bind ∈ templates ∧ ∃ e, bind row = .error e := by
  simp only [bindAll_eq_error_iff_mapM]
  rw [exists_error_iff, exists_mapM_ok_iff]
  simp only [mem_bindings_iff, exists_error_iff, not_forall, exists_prop]

theorem bindAll_eq_none_iff : bindAll templates row = .ok none ↔ templates = [] := by
  refine ⟨?_, ?_⟩
  · intro h
    by_contra hne
    rw [bindAll_of_ne_nil hne, map_eq_ok_iff] at h
    obtain ⟨filters, -, hnone⟩ := h
    cases hnone
  · rintro rfl
    rfl

/-- A row passes the filter of a scan when the filter of each binding accepts it. -/
theorem passes_of_bindAll {filter : Option Filter} (h : bindAll templates row = .ok filter)
    (key : Bytes) (cells : List KeyValue) :
    Filter.passes filter key cells = true ↔ ∀ bind, .modelAware bind ∈ templates →
      ∃ f, bind row = .ok f ∧ f.accepts key cells = true := by
  by_cases hempty : templates = []
  · subst hempty
    cases h
    simp [Filter.passes]
  · rw [bindAll_of_ne_nil hempty, map_eq_ok_iff] at h
    obtain ⟨filters, hfilters, rfl⟩ := h
    have hbound := mapM_eq_ok_iff.1 hfilters
    rw [Filter.passes, Option.all_some, Filter.accepts_all_iff]
    constructor
    · intro haccepts bind hmem
      obtain ⟨f, hf, hbind⟩ := exists_mem_of_forall₂ hbound (mem_bindings_iff.2 hmem)
      exact ⟨f, hbind, haccepts f hf⟩
    · intro haccepts f hf
      obtain ⟨bind, hmem, hbind⟩ := exists_mem_of_forall₂ hbound.flip hf
      obtain ⟨f', hbind', haccepted⟩ := haccepts bind (mem_bindings_iff.1 hmem)
      cases hbind.symm.trans hbind'
      exact haccepted

/-- Whatever scans by the row these templates and the others allow, they find the same rows. -/
def ScanAlike (row : Row) (templates templates' : List FilterTemplate) : Prop :=
  ∀ start s s', row.toScan templates start = .ok s → row.toScan templates' start = .ok s' →
    ∀ t : Table, t.scan s = t.scan s'

theorem scanAlike_of_mem_iff {templates' : List FilterTemplate}
    (h : ∀ bind, .modelAware bind ∈ templates ↔ .modelAware bind ∈ templates') :
    ScanAlike row templates templates' := by
  intro start s s' hs hs' t
  obtain ⟨filter, hfilter, hscan⟩ := bind_eq_ok_iff.1 hs
  obtain ⟨filter', hfilter', hscan'⟩ := bind_eq_ok_iff.1 hs'
  cases hscan
  cases hscan'
  apply Table.scan_congr
  intro key cells
  rw [Bool.eq_iff_iff, passes_of_bindAll hfilter, passes_of_bindAll hfilter']
  simp only [h]

/-- Binding templates to a row fails when one of their bindings fails, with the first failure; it
yields no filter when there is no template; and otherwise it yields one that accepts a row exactly
if every binding's own filter does.

So fixed templates, wherever they stand, change neither the failure nor the rows that a scan finds,
and the order of the bindings changes no more than which of several failures is reported. -/
theorem bindAll_combines (templates : List FilterTemplate) (row : Row) :
    ((∃ e, bindAll templates row = .error e) ↔
        ∃ bind, .modelAware bind ∈ templates ∧ ∃ e, bind row = .error e) ∧
      (∀ e, bindAll templates row = .error e ↔ ∃ before bind after,
        templates = before ++ .modelAware bind :: after ∧
          (∀ b, .modelAware b ∈ before → ∃ filter, b row = .ok filter) ∧ bind row = .error e) ∧
      (bindAll templates row = .ok none ↔ templates = []) ∧
      (templates ≠ [] → (∀ bind, .modelAware bind ∈ templates → ∃ f, bind row = .ok f) →
        ∃ filter, bindAll templates row = .ok (some filter) ∧ ∀ key cells,
          filter.accepts key cells = true ↔ ∀ bind, .modelAware bind ∈ templates →
            ∃ f, bind row = .ok f ∧ f.accepts key cells = true) ∧
      (∀ templates' : List FilterTemplate,
        templates'.filterMap binding? = templates.filterMap binding? →
          (∀ e, bindAll templates' row = .error e ↔ bindAll templates row = .error e) ∧
            ScanAlike row templates templates') ∧
      ∀ templates' : List FilterTemplate,
        (templates'.filterMap binding?).Perm (templates.filterMap binding?) →
          ((∃ e, bindAll templates' row = .error e) ↔ ∃ e, bindAll templates row = .error e) ∧
            ScanAlike row templates templates' := by
  refine ⟨exists_bindAll_error_iff, fun e => bindAll_eq_error_iff, bindAll_eq_none_iff, ?_, ?_, ?_⟩
  · intro hne hbind
    have hbound : ∃ filter, bindAll templates row = .ok filter := by
      by_contra hfails
      obtain ⟨bind, hmem, herror⟩ := exists_bindAll_error_iff.1 (exists_error_iff.2 hfails)
      exact exists_error_iff.1 herror (hbind bind hmem)
    obtain ⟨filter, hfilter⟩ := hbound
    cases filter with
    | none => exact absurd (bindAll_eq_none_iff.1 hfilter) hne
    | some filter => exact ⟨filter, hfilter, passes_of_bindAll hfilter⟩
  · intro templates' hsame
    refine ⟨?_, ?_⟩
    · intro e
      rw [bindAll_eq_error_iff_mapM, bindAll_eq_error_iff_mapM, hsame]
    · apply scanAlike_of_mem_iff
      intro bind
      rw [← mem_bindings_iff, ← mem_bindings_iff, hsame]
  · intro templates' hperm
    have hmem : ∀ bind, .modelAware bind ∈ templates ↔ .modelAware bind ∈ templates' := by
      intro bind
      rw [← mem_bindings_iff, ← mem_bindings_iff, hperm.mem_iff]
    refine ⟨?_, scanAlike_of_mem_iff hmem⟩
    simp only [exists_bindAll_error_iff, hmem]

/-- Two bindings among fixed templates, then alone and in the other order; with a third that fails,
and a fourth that is not reported. -/
theorem bindAll_combines_four :
    let template : Row :=
      { cells := [{ family := some "f", qualifier := some "q", value := some (.utf8 "x") }] }
    let start : FilterTemplate := .modelAware fun _ => .ok (.keyStart [114])
    let failing : String → FilterTemplate := fun text =>
      .modelAware fun _ => .error (.unparsable text .int64)
    let templates : List FilterTemplate := [.fixed (.keyStart [9]), start, .columnMatching]
    let cells : List KeyValue := [⟨[114], [102], [113], 1, [120]⟩]
    (∃ filter, bindAll templates template = .ok (some filter) ∧
        filter.accepts [114] cells = true ∧ filter.accepts [115] cells = false) ∧
      ScanAlike template templates [.columnMatching, start] ∧
      bindAll (templates ++ [failing "a", failing "b"]) template =
        .error (.unparsable "a" .int64) := by
  intro template start failing templates cells
  have hbound : ∀ bind, .modelAware bind ∈ templates → ∃ f, bind template = .ok f := by
    intro bind hmem
    have hbindings : bind ∈ [_, _] := mem_bindings_iff.2 hmem
    rcases List.mem_pair.1 hbindings with rfl | rfl
    · exact ⟨_, rfl⟩
    · exact ⟨_, rfl⟩
  have hexchanged : ([.columnMatching, start].filterMap binding?).Perm
      (templates.filterMap binding?) :=
    .swap _ _ []
  obtain ⟨-, -, -, hfilter, -, hperm⟩ := bindAll_combines templates template
  obtain ⟨filter, hfilter, haccepts⟩ := hfilter (List.cons_ne_nil _ _) hbound
  obtain ⟨-, hfirst, -⟩ :=
    bindAll_combines (templates ++ [failing "a", failing "b"]) template
  refine ⟨⟨filter, hfilter, ?_, ?_⟩, (hperm _ hexchanged).2, (hfirst _).2 ?_⟩
  · cases hfilter
    decide +kernel
  · cases hfilter
    decide +kernel
  · exact ⟨templates, _, [failing "b"], rfl, hbound, rfl⟩

end FilterTemplate

end ColumnConnector
