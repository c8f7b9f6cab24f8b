import ColumnConnector.Endpoint.Config
import ColumnConnector.Invocation.Plan
import ColumnConnector.Proofs.SortedMap

/-!
# The headers that an endpoint fills in

Filling in a header touches that header only, and only when it is missing.  The endpoint fills in
four different headers, so the order in which it does so is of no account: `get?_fillHeaders` says
what stands under each name afterwards.
-/

namespace ColumnConnector

/-- The headers that an endpoint has values for, in the order in which they are filled in. -/
def Endpoint.defaults (e : Endpoint) : List (String × Option Json) := [
  (Header.maxScanResults,
    if e.config.maxResults = 0 then none else some (.int e.config.maxResults.toNat)),
  (Header.strategy, e.config.strategyName.map .str),
  (Header.strategyClass, e.config.strategyClass.map .str),
  (Header.operation, some (.str (e.config.operation.getD .standard).name))]

/-- What an endpoint sets a missing header to, if anything. -/
def Endpoint.default? (e : Endpoint) (name : String) : Option Json := (e.defaults.lookup name).join

namespace Message

/-- What stands in the headers under a name, unless it is null. -/
theorem header_of_mem {m : Message} {name : String} {j : Json}
    (h : (name, j) ∈ m.headers.entries) (hj : j.isNull = false) : m.header name = some j := by
  rw [header, SortedMap.get?_eq_some_iff.2 h, Option.filter, hj]
  rfl

theorem header_of_not_mem {m : Message} {name : String} (h : name ∉ m.headers.keys) :
    m.header name = none := by
  have hget : m.headers.get? name = none := by
    rw [Option.eq_none_iff_forall_ne_some]
    intro j hj
    exact h (List.mem_map_of_mem (SortedMap.get?_eq_some_iff.1 hj))
  rw [header, hget]
  rfl

theorem hasHeader_congr {m m' : Message} {name : String}
    (h : m'.headers.get? name = m.headers.get? name) : m'.hasHeader name = m.hasHeader name := by
  unfold hasHeader header
  rw [h]

end Message

namespace Endpoint

theorem body_fillHeader (name : String) (value : Option Json) (m : Message) :
    (fillHeader name value m).body = m.body := by
  cases value with
  | none => rfl
  | some j =>
    show (m.defaultHeader name j).body = m.body
    unfold Message.defaultHeader
    split <;> rfl

theorem get?_fillHeader_self (name : String) (value : Option Json) (m : Message) :
    (fillHeader name value m).headers.get? name =
      if m.hasHeader name then m.headers.get? name else value.or (m.headers.get? name) := by
  cases value with
  | none =>
    rw [Option.none_or, ite_self]
    rfl
  | some j =>
    show (m.defaultHeader name j).headers.get? name = _
    unfold Message.defaultHeader
    split
    · rfl
    · have hget := SortedMap.get?_insert_eq m.headers name name j
      rw [if_pos rfl] at hget
      exact hget

theorem get?_fillHeader_of_ne {name other : String} (h : other ≠ name) (value : Option Json)
    (m : Message) : (fillHeader name value m).headers.get? other = m.headers.get? other := by
  cases value with
  | none => rfl
  | some j =>
    show (m.defaultHeader name j).headers.get? other = _
    unfold Message.defaultHeader
    split
    · rfl
    · have hget := SortedMap.get?_insert_eq m.headers name other j
      rw [if_neg h] at hget
      exact hget

theorem body_fillHeaders (e : Endpoint) (m : Message) : (e.fillHeaders m).body = m.body := by
  simp only [fillHeaders, body_fillHeader]

/-- Filling in headers of different names: each is filled in as if it were the only one. -/
theorem get?_foldl_fillHeader {fills : List (String × Option Json)}
    (hnames : (fills.map Prod.fst).Nodup) (m : Message) (name : String) :
    (fills.foldl (fun m fill => fillHeader fill.1 fill.2 m) m).headers.get? name =
      if m.hasHeader name then m.headers.get? name
      else (fills.lookup name).join.or (m.headers.get? name) := by
  induction fills generalizing m with
  | nil =>
    rw [List.lookup_nil, Option.join_none, Option.none_or, ite_self]
    rfl
  | cons fill rest ih =>
    obtain ⟨hfresh, hrest⟩ := List.nodup_cons.1 hnames
    rw [List.foldl_cons, ih hrest]
    by_cases hname : name = fill.1
    · have habsent : rest.lookup name = none := by
        rw [List.lookup_eq_none_iff]
        intro e he
        have hne : name ≠ e.1 := fun h => hfresh (List.mem_map.2 ⟨e, he, h.symm.trans hname⟩)
        simpa using hne
      rw [habsent, Option.join_none, Option.none_or, ite_self, hname, get?_fillHeader_self,
        List.lookup_cons_self, Option.join_some]
    · have hget := get?_fillHeader_of_ne hname fill.2 m
      have hlookup : (fill :: rest).lookup name = rest.lookup name := by
        rw [List.lookup_cons, show (name == fill.1) = false from by simpa using hname]
      rw [hget, Message.hasHeader_congr hget, hlookup]

section Defaults

variable (e : Endpoint)

theorem default?_operation :
    e.default? Header.operation = some (.str (e.config.operation.getD .standard).name) := rfl

theorem default?_maxScanResults : e.default? Header.maxScanResults =
    if e.config.maxResults = 0 then none else some (.int e.config.maxResults.toNat) := rfl

theorem default?_strategy : e.default? Header.strategy = e.config.strategyName.map .str := rfl

theorem default?_strategyClass :
    e.default? Header.strategyClass = e.config.strategyClass.map .str := rfl

end Defaults

/-- There are defaults for the defaulted headers only. -/
theorem default?_eq_none {e : Endpoint} {name : String} (h : name ∉ Header.defaulted) :
    e.default? name = none := by
  have habsent : e.defaults.lookup name = none := by
    rw [List.lookup_eq_none_iff]
    intro fill hfill
    have hnames : ∀ part ∈ e.defaults.map Prod.fst, part ∈ Header.defaulted := by
      show ∀ part ∈ [Header.maxScanResults, Header.strategy, Header.strategyClass,
        Header.operation], part ∈ Header.defaulted
      decide
    have hne : name ≠ fill.1 := by
      rintro rfl
      exact h (hnames fill.1 (List.mem_map_of_mem hfill))
    simpa using hne
  rw [default?, habsent]
  rfl

/-- A header that is there stays; a missing one takes the default of the endpoint. -/
theorem get?_fillHeaders (e : Endpoint) (m : Message) (name : String) :
    (e.fillHeaders m).headers.get? name =
      if m.hasHeader name then m.headers.get? name
      else (e.default? name).or (m.headers.get? name) := by
  have hnames : (e.defaults.map Prod.fst).Nodup := by
    show [Header.maxScanResults, Header.strategy, Header.strategyClass, Header.operation].Nodup
    decide
  exact get?_foldl_fillHeader hnames m name

/-- What an endpoint fills in counts as there. -/
theorem isNull_of_default? {e : Endpoint} {name : String} {j : Json}
    (h : e.default? name = some j) : j.isNull = false := by
  have hname : name ∈ Header.defaulted := by
    refine Decidable.of_not_not fun hnot => ?_
    rw [default?_eq_none hnot] at h
    cases h
  simp only [Header.defaulted, List.mem_cons, List.not_mem_nil, or_false] at hname
  rcases hname with rfl | rfl | rfl | rfl
  · rw [default?_operation] at h
    cases h
    rfl
  · rw [default?_maxScanResults] at h
    split at h <;> cases h
    rfl
  · obtain ⟨s, -, rfl⟩ := Option.map_eq_some_iff.1 (e.default?_strategy ▸ h)
    rfl
  · obtain ⟨s, -, rfl⟩ := Option.map_eq_some_iff.1 (e.default?_strategyClass ▸ h)
    rfl

/-- The header of a message comes before the default of the endpoint. -/
theorem header_fillHeaders_eq (e : Endpoint) (m : Message) (name : String) :
    (e.fillHeaders m).header name = (m.header name).or (e.default? name) := by
  rw [Message.header, get?_fillHeaders]
  cases hheader : m.header name with
  | some j =>
    rw [if_pos (by rw [Message.hasHeader, hheader]; rfl), Option.some_or]
    exact hheader
  | none =>
    rw [if_neg (by rw [Message.hasHeader, hheader]; exact Bool.false_ne_true), Option.none_or]
    cases hdefault : e.default? name with
    | none =>
      rw [Option.none_or]
      exact hheader
    | some j =>
      rw [Option.some_or]
      exact Option.filter_some_pos (by rw [isNull_of_default? hdefault]; rfl)

theorem fillHeader_of_hasHeader {name : String} {value : Option Json} {m : Message}
    (h : value.isSome → m.hasHeader name = true) : fillHeader name value m = m := by
  cases value with
  | none => rfl
  | some j => exact if_pos (h rfl)

/-- There is nothing left to fill in after headers were filled in. -/
theorem fillHeaders_fillHeaders (e : Endpoint) (m : Message) :
    e.fillHeaders (e.fillHeaders m) = e.fillHeaders m := by
  have hthere : ∀ name, (e.default? name).isSome → (e.fillHeaders m).hasHeader name = true := by
    intro name hdefault
    rw [Message.hasHeader, header_fillHeaders_eq, Option.isSome_or, hdefault, Bool.or_true]
  generalize e.fillHeaders m = filled at hthere
  have hfill : ∀ name, fillHeader name (e.default? name) filled = filled :=
    fun name => fillHeader_of_hasHeader (hthere name)
  show fillHeader Header.operation (e.default? Header.operation)
    (fillHeader Header.strategyClass (e.default? Header.strategyClass)
      (fillHeader Header.strategy (e.default? Header.strategy)
        (fillHeader Header.maxScanResults (e.default? Header.maxScanResults) filled))) = filled
  rw [hfill, hfill, hfill, hfill]

/-- A header changes only if it was missing and the endpoint has a default for it. -/
theorem fillHeaders_frame (e : Endpoint) (m : Message) (name : String) :
    (e.fillHeaders m).headers.get? name = m.headers.get? name ∨
      name ∈ Header.defaulted ∧ m.hasHeader name = false ∧
        ∃ j, e.default? name = some j ∧ (e.fillHeaders m).headers.get? name = some j := by
  rw [get?_fillHeaders]
  cases hheader : m.hasHeader name with
  | true => exact .inl rfl
  | false =>
    cases hdefault : e.default? name with
    | none => exact .inl rfl
    | some j =>
      have hname : name ∈ Header.defaulted := by
        refine Decidable.of_not_not fun hnot => ?_
        rw [default?_eq_none hnot] at hdefault
        cases hdefault
      exact .inr ⟨hname, rfl, j, rfl, rfl⟩

end Endpoint

end ColumnConnector
