import ColumnConnector.Endpoint.Config
import ColumnConnector.Proofs.Json.Records
import ColumnConnector.Proofs.Numeral.Doubles

/-!
# Batches and configurations in JSON

What is written is read back as it was, if all its doubles are finite (`RowBatch.ofJson?_toJson`,
`EndpointConfig.ofJson?_toJson`).  What is read of a JSON text in any of the accepted forms has no
other doubles, so that writing it and reading it again changes nothing (`json_roundTrip`).
-/

namespace ColumnConnector

/-! ### Whole numbers as doubles -/

namespace Binary64

/-- The exponent field of infinity is 2047, far above what so many units need. -/
theorem nearest_lt_infinity {num k : Nat} (h : num < Nat.pow 2 k) (hk : k ≤ 1200) :
    nearest num 1 < infinity := by
  have hlog : Nat.log2 num ≤ 1200 := by
    rcases Nat.eq_zero_or_pos num with rfl | hpos
    · exact Nat.zero_le _
    · have hlt := (Nat.log2_lt (by omega)).2 h
      omega
  -- The shift leaves at most 53 bits, to which rounding adds at most one.
  obtain ⟨hquotient, -⟩ := div_shift_bounds num
  have hround := roundHalfEven_eq_or num (Nat.pow 2 (Nat.log2 num - 52))
  have hmagnitude : (Nat.log2 num - 52) * fractionSize +
      roundHalfEven num (Nat.pow 2 (Nat.log2 num - 52)) < infinity := by
    rw [← Nat.pow_eq] at hquotient
    unfold fractionSize infinity at *
    omega
  unfold nearest
  simp only [Nat.div_one, Nat.one_mul]
  exact Nat.lt_of_le_of_lt (Nat.min_le_right _ _) hmagnitude

/-- The whole numbers of a JSON text are no doubles out of range. -/
theorem isFinite_ofInt {n : Int} (h : n.natAbs ≤ 18446744073709551616) :
    (ofInt n).isFinite = true := by
  have hunits : ∀ k, n.natAbs * Nat.pow 2 k < Nat.pow 2 (65 + k) := by
    intro k
    calc n.natAbs * Nat.pow 2 k < Nat.pow 2 65 * Nat.pow 2 k :=
          Nat.mul_lt_mul_of_pos_right (Nat.lt_of_le_of_lt h (by decide)) (Nat.two_pow_pos k)
      _ = Nat.pow 2 (65 + k) := (Nat.pow_add 2 65 k).symm
  have hnearest : nearest (n.natAbs * one) 1 < infinity := by
    unfold one
    exact nearest_lt_infinity (hunits 1074) (by decide)
  have hsmall : nearest (n.natAbs * one) 1 < signWeight := Nat.lt_trans hnearest (by decide)
  unfold isFinite ofInt
  rw [magnitude_ofMagnitude hsmall]
  exact decide_eq_true hnearest

end Binary64

/-! ### Types and operations -/

theorem ValueType.restores (t : ValueType) : Json.Restores toJson ofJson? t :=
  ⟨by cases t <;> decide, rfl⟩

theorem ValueType.proper_toJson (t : ValueType) : t.toJson.Proper := .str t.name

theorem Operation.restores (op : Operation) : Json.Restores toJson ofJson? op :=
  ⟨by cases op <;> decide, rfl⟩

/-! ### Contents -/

namespace Json

theorem restores_int32 (n : Int32) : Restores ofInt32 int32? n where
  read_write := by
    have hlow := n.le_toInt
    have hhigh := n.toInt_lt
    rw [ofInt32, int32?, intWithin?_of_le (by omega) (by omega), Option.map_some, Int32.ofInt_toInt]
  isNull_write := rfl

theorem restores_int64 (n : Int64) : Restores ofInt64 int64? n where
  read_write := by
    have hlow := n.le_toInt
    have hhigh := n.toInt_lt
    rw [ofInt64, int64?, intWithin?_of_le (by omega) (by omega), Option.map_some, Int64.ofInt_toInt]
  isNull_write := rfl

theorem restores_bytes (raw : Bytes) : Restores ofBytes (list? byte?) raw := by
  refine Restores.list? fun b _ => ⟨?_, rfl⟩
  have hhigh := b.toNat_lt
  rw [byte?, intWithin?_of_le (by omega) (by omega), Option.map_some, Int.toNat_natCast,
    UInt8.ofNat_toNat]

theorem restores_float {x : Binary64} (h : x.isFinite = true) : Restores ofFloat float? x := by
  have hj : ofFloat x = .float x := if_pos h
  constructor
  · rw [hj]
    rfl
  · rw [hj]
    rfl

theorem proper_ofInt64 (n : Int64) : (ofInt64 n).Proper := by
  have hlow := n.le_toInt
  have hhigh := n.toInt_lt
  exact .int (by omega) (by omega)

theorem Proper.isFinite_of_float? {j : Json} (h : j.Proper) {x : Binary64}
    (hread : j.float? = some x) : x.isFinite = true := by
  cases h with
  | int hlow hhigh =>
    cases hread
    exact Binary64.isFinite_ofInt (by omega)
  | float hx =>
    cases hread
    exact hx
  | _ => cases hread

end Json

namespace CellValue

/-- The value is no double, or a finite one. -/
def Finite : CellValue → Prop
  | .float64 x => x.isFinite = true
  | _ => True

theorem restores_content {v : CellValue} (h : v.Finite) :
    ofContent? v.type v.contentJson = some v := by
  cases v with
  | bytes raw => exact congrArg (Option.map _) (Json.restores_bytes raw).read_write
  | utf8 s => rfl
  | int32 n => exact congrArg (Option.map _) (Json.restores_int32 n).read_write
  | int64 n => exact congrArg (Option.map _) (Json.restores_int64 n).read_write
  | float64 x => exact congrArg (Option.map _) (Json.restores_float h).read_write
  | bool b => rfl

theorem finite_of_content {t : ValueType} {content : Json} {v : CellValue} (hj : content.Proper)
    (h : ofContent? t content = some v) : v.Finite := by
  cases t with
  | float64 =>
    obtain ⟨x, hx, rfl⟩ := Option.map_eq_some_iff.1 h
    exact hj.isFinite_of_float? hx
  | _ =>
    obtain ⟨x, -, rfl⟩ := Option.map_eq_some_iff.1 h
    trivial

theorem proper_content (v : CellValue) : v.contentJson.Proper := by
  cases v with
  | bytes raw =>
    refine Json.proper_list (fun b => ?_) raw
    have hhigh := b.toNat_lt
    exact .int (by omega) (by omega)
  | utf8 s => exact .str s
  | int32 n =>
    have hlow := n.le_toInt
    have hhigh := n.toInt_lt
    exact .int (by omega) (by omega)
  | int64 n => exact Json.proper_ofInt64 n
  | float64 x =>
    show (if x.isFinite then Json.float x else Json.null).Proper
    split
    · next hx => exact .float hx
    · exact .null
  | bool b => exact .bool b

/-- The fields of a value. -/
def jsonFields (v : CellValue) : List (String × Option Json) :=
  [("type", some v.type.toJson), ("value", some v.contentJson)]

theorem toJson_eq (v : CellValue) : v.toJson = .record (Json.present v.jsonFields) := rfl

theorem restores {v : CellValue} (h : v.Finite) : Json.Restores toJson ofJson? v where
  read_write := by
    let m := SortedMap.ofList (Json.present v.jsonFields)
    have hget : ∀ g ∈ v.jsonFields, m.get? g.1 = g.2 :=
      fun g hg => Json.get?_present (by simp [jsonFields]) hg
    have htype := hget ("type", some v.type.toJson) (by simp [jsonFields])
    have hvalue := hget ("value", some v.contentJson) (by simp [jsonFields])
    show (do
      let t ← Json.required? ValueType.ofJson? (m.get? "type")
      Json.required? (ofContent? t) (m.get? "value")) = some v
    rw [htype, hvalue]
    show (ValueType.ofJson? v.type.toJson >>= fun t => ofContent? t v.contentJson) = some v
    rw [v.type.restores.read_write]
    exact restores_content h
  isNull_write := rfl

theorem proper_toJson (v : CellValue) : v.toJson.Proper := by
  rw [toJson_eq]
  apply Json.proper_record
  refine List.forall_mem_cons.2 ⟨?_, List.forall_mem_singleton.2 ?_⟩
  · intro j hj
    cases hj
    exact .str _
  · intro j hj
    cases hj
    exact v.proper_content

/-- No double that is not finite is read, in whatever form the value is given. -/
theorem finite_of_ofJson? {j : Json} {v : CellValue} (hj : j.Proper) (h : ofJson? j = some v) :
    v.Finite := by
  unfold ofJson? at h
  split at h
  · obtain ⟨t, -, hv⟩ := Option.bind_eq_some_iff.1 h
    exact finite_of_content (Json.proper_arr_iff.1 hj _ (by simp)) hv
  · next fields =>
    obtain ⟨t, -, hv⟩ := Option.bind_eq_some_iff.1 h
    obtain ⟨content, hcontent, hv⟩ := Json.exists_of_required? hv
    have hmem := SortedMap.mem_of_lookup hcontent
    exact finite_of_content (Json.proper_obj_iff.1 hj _ hmem) hv
  · cases h

end CellValue

/-! ### Cells and rows -/

namespace Cell

/-- The value of the cell is no double, or a finite one. -/
def Finite (c : Cell) : Prop := ∀ v, c.value = some v → v.Finite

/-- The fields of a cell. -/
def jsonFields (c : Cell) : List (String × Option Json) := [
  ("family", c.family.map .str), ("qualifier", c.qualifier.map .str),
  ("value", c.value.map CellValue.toJson), ("value_type", c.valueType.map ValueType.toJson),
  ("timestamp", c.timestamp.map .ofInt64)]

theorem toJson_eq (c : Cell) : c.toJson = .record (Json.present c.jsonFields) := by
  simp [toJson, jsonFields, Json.present]

theorem restores {c : Cell} (h : c.Finite) : Json.Restores toJson ofJson? c where
  read_write := by
    have hnames : (c.jsonFields.map Prod.fst).Nodup := by simp [jsonFields]
    have hfields := Json.fields?_record hnames
    have hfamily : Json.optional? Json.string? (c.family.map .str) = some c.family :=
      Json.Restores.optional?_map fun s _ => Json.restores_string s
    have hqualifier : Json.optional? Json.string? (c.qualifier.map .str) = some c.qualifier :=
      Json.Restores.optional?_map fun s _ => Json.restores_string s
    have hvalue : Json.optional? CellValue.ofJson? (c.value.map CellValue.toJson) = some c.value :=
      Json.Restores.optional?_map fun v hv => CellValue.restores (h v hv)
    have htype : Json.optional? ValueType.ofJson? (c.valueType.map ValueType.toJson) =
        some c.valueType :=
      Json.Restores.optional?_map fun t _ => t.restores
    have htimestamp : Json.optional? Json.int64? (c.timestamp.map .ofInt64) = some c.timestamp :=
      Json.Restores.optional?_map fun n _ => Json.restores_int64 n
    simp only [jsonFields, List.map_cons, List.map_nil] at hfields
    simp only [ofJson?, toJson_eq, jsonFields, hfields, hfamily, hqualifier, hvalue, htype,
      htimestamp, Option.bind_eq_bind, Option.bind_some]
    rfl
  isNull_write := by
    rw [toJson_eq]
    rfl

theorem proper_toJson (c : Cell) : c.toJson.Proper := by
  rw [toJson_eq]
  apply Json.proper_record
  simp only [jsonFields, List.forall_mem_cons]
  exact ⟨Json.proper_optional .str _, Json.proper_optional .str _,
    Json.proper_optional CellValue.proper_toJson _, Json.proper_optional ValueType.proper_toJson _,
    Json.proper_optional Json.proper_ofInt64 _, List.forall_mem_nil _⟩

theorem finite_of_ofJson? {j : Json} {c : Cell} (hj : j.Proper) (h : ofJson? j = some c) :
    c.Finite := by
  unfold ofJson? at h
  split at h
  · next family qualifier value valueType timestamp hfields =>
    simp only [Option.bind_eq_bind, Option.bind_eq_some_iff] at h
    obtain ⟨family, -, qualifier, -, value, hvalue, valueType, -, timestamp, -, hc⟩ := h
    cases hc
    intro v hv
    cases hv
    obtain ⟨j', rfl, hread⟩ := Json.exists_of_optional? hvalue
    exact CellValue.finite_of_ofJson? (hj.fields? hfields (by simp)) hread
  · cases h

end Cell

namespace Row

/-- No value of the row is a double that is not finite. -/
structure Finite (r : Row) : Prop where
  id : ∀ v, r.id = some v → v.Finite
  cells : ∀ c ∈ r.cells, c.Finite

/-- The fields of a row. -/
def jsonFields (r : Row) : List (String × Option Json) := [
  ("id", r.id.map CellValue.toJson), ("row_type", r.rowType.map ValueType.toJson),
  ("timestamp", r.timestamp.map .ofInt64), ("cells", some (.arr (r.cells.map Cell.toJson)))]

theorem toJson_eq (r : Row) : r.toJson = .record (Json.present r.jsonFields) := by
  simp [toJson, jsonFields, Json.present, Json.optionalField]

theorem restores {r : Row} (h : r.Finite) : Json.Restores toJson ofJson? r where
  read_write := by
    have hnames : (r.jsonFields.map Prod.fst).Nodup := by simp [jsonFields]
    have hfields := Json.fields?_record hnames
    have hid : Json.optional? CellValue.ofJson? (r.id.map CellValue.toJson) = some r.id :=
      Json.Restores.optional?_map fun v hv => CellValue.restores (h.id v hv)
    have htype : Json.optional? ValueType.ofJson? (r.rowType.map ValueType.toJson) =
        some r.rowType :=
      Json.Restores.optional?_map fun t _ => t.restores
    have htimestamp : Json.optional? Json.int64? (r.timestamp.map .ofInt64) = some r.timestamp :=
      Json.Restores.optional?_map fun n _ => Json.restores_int64 n
    have hcells : Json.defaulted? [] (Json.list? Cell.ofJson?)
        (some (.arr (r.cells.map Cell.toJson))) = some r.cells :=
      (Json.Restores.list? fun c hc => Cell.restores (h.cells c hc)).read_write
    simp only [jsonFields, List.map_cons, List.map_nil] at hfields
    simp only [ofJson?, toJson_eq, jsonFields, hfields, hid, htype, htimestamp, hcells,
      Option.bind_eq_bind, Option.bind_some]
    rfl
  isNull_write := by
    rw [toJson_eq]
    rfl

theorem proper_toJson (r : Row) : r.toJson.Proper := by
  rw [toJson_eq]
  apply Json.proper_record
  simp only [jsonFields, List.forall_mem_cons]
  refine ⟨Json.proper_optional CellValue.proper_toJson _,
    Json.proper_optional ValueType.proper_toJson _, Json.proper_optional Json.proper_ofInt64 _, ?_,
    List.forall_mem_nil _⟩
  intro j hj
  cases hj
  exact Json.proper_list Cell.proper_toJson r.cells

theorem finite_of_ofJson? {j : Json} {r : Row} (hj : j.Proper) (h : ofJson? j = some r) :
    r.Finite := by
  unfold ofJson? at h
  split at h
  · next id rowType timestamp cells hfields =>
    simp only [Option.bind_eq_bind, Option.bind_eq_some_iff] at h
    obtain ⟨id, hid, rowType, -, timestamp, -, cells, hcells, hr⟩ := h
    cases hr
    constructor
    · intro v hv
      cases hv
      obtain ⟨j', rfl, hread⟩ := Json.exists_of_optional? hid
      exact CellValue.finite_of_ofJson? (hj.fields? hfields (by simp)) hread
    · rcases Json.exists_of_defaulted? hcells with ⟨-, rfl⟩ | ⟨j', rfl, hread⟩
      · exact List.forall_mem_nil _
      · exact (hj.fields? hfields (by simp)).of_list? hread fun _ _ => Cell.finite_of_ofJson?
  · cases h

end Row

/-! ### Batches and configurations -/

namespace RowBatch

/-- No value of the batch is a double that is not finite. -/
def Finite (batch : RowBatch) : Prop := ∀ r ∈ batch, r.Finite

/-- The fields of a batch. -/
def jsonFields (batch : RowBatch) : List (String × Option Json) :=
  [("rows", some (.arr (batch.map Row.toJson)))]

theorem toJson_eq (batch : RowBatch) :
    toJson batch = .record (Json.present (jsonFields batch)) := rfl

theorem proper_toJson (batch : RowBatch) : (toJson batch).Proper := by
  rw [toJson_eq]
  apply Json.proper_record
  refine List.forall_mem_singleton.2 fun j hj => ?_
  cases hj
  exact Json.proper_list Row.proper_toJson batch

theorem finite_of_ofJson? {j : Json} {batch : RowBatch} (hj : j.Proper)
    (h : ofJson? j = some batch) : Finite batch := by
  unfold ofJson? at h
  split at h
  · next rows hfields =>
    obtain ⟨j', rfl, hread⟩ := Json.exists_of_required? h
    exact (hj.fields? hfields (by simp)).of_list? hread fun _ _ => Row.finite_of_ofJson?
  · cases h

/-- A batch is read as it was written exactly when all its doubles are finite. -/
theorem ofJson?_toJson_iff {batch : RowBatch} :
    ofJson? (toJson batch) = some batch ↔ Finite batch := by
  constructor
  · exact finite_of_ofJson? (proper_toJson batch)
  · intro h
    have hnames : ((jsonFields batch).map Prod.fst).Nodup := by simp [jsonFields]
    have hfields := Json.fields?_record hnames
    have hrows : Json.required? (Json.list? Row.ofJson?)
        (some (.arr (batch.map Row.toJson))) = some batch :=
      (Json.Restores.list? fun r hr => Row.restores (h r hr)).read_write
    simp only [jsonFields, List.map_cons, List.map_nil] at hfields
    simp only [ofJson?, toJson_eq, jsonFields, hfields, hrows]

end RowBatch

namespace EndpointConfig

/-- No value of the row model is a double that is not finite. -/
def Finite (c : EndpointConfig) : Prop := c.rowModel.Finite

/-- The fields of a configuration. -/
def jsonFields (c : EndpointConfig) : List (String × Option Json) := [
  ("table_name", some (.str c.table)),
  ("operation", some (c.operation.elim .null Operation.toJson)),
  ("max_results", some (.int c.maxResults.toNat)),
  ("mapping_strategy_name", some (c.strategyName.elim .null .str)),
  ("mapping_strategy_class_name", some (c.strategyClass.elim .null .str)),
  ("pool_max_size", some (.int c.poolSize.toNat)), ("row_model", some c.rowModel.toJson)]

theorem toJson_eq (c : EndpointConfig) : c.toJson = .record (Json.present c.jsonFields) := rfl

theorem proper_toJson (c : EndpointConfig) : c.toJson.Proper := by
  have htext : ∀ o : Option String, (o.elim Json.null Json.str).Proper := by
    intro o
    cases o with
    | none => exact .null
    | some s => exact .str s
  have hcount : ∀ n : UInt64, (Json.int n.toNat).Proper := by
    intro n
    have hhigh := n.toNat_lt
    exact .int (by omega) (by omega)
  have hoperation : (c.operation.elim Json.null Operation.toJson).Proper := by
    cases c.operation with
    | none => exact .null
    | some op => exact .str op.name
  rw [toJson_eq]
  apply Json.proper_record
  simp only [jsonFields, List.forall_mem_cons, Option.some.injEq, forall_eq']
  exact ⟨.str _, hoperation, hcount _, htext _, htext _, hcount _, c.rowModel.proper_toJson,
    List.forall_mem_nil _⟩

theorem finite_of_ofJson? {j : Json} {c : EndpointConfig} (hj : j.Proper)
    (h : ofJson? j = some c) : c.Finite := by
  unfold ofJson? at h
  split at h
  · next table operation maxResults strategyName strategyClass poolSize rowModel hfields =>
    simp only [Option.bind_eq_bind, Option.bind_eq_some_iff] at h
    obtain ⟨table, -, operation, -, maxResults, -, strategyName, -, strategyClass, -, poolSize, -,
      rowModel, hmodel, hc⟩ := h
    cases hc
    rcases Json.exists_of_defaulted? hmodel with ⟨-, rfl⟩ | ⟨j', rfl, hread⟩
    · exact ⟨fun v hv => absurd hv (Option.some_ne_none v).symm, List.forall_mem_nil _⟩
    · exact Row.finite_of_ofJson? (hj.fields? hfields (by simp)) hread
  · cases h

/-- A configuration is read as it was written exactly when the doubles of its row model are
finite. -/
theorem ofJson?_toJson_iff {c : EndpointConfig} : ofJson? c.toJson = some c ↔ c.Finite := by
  constructor
  · exact finite_of_ofJson? c.proper_toJson
  · intro h
    have hnames : (c.jsonFields.map Prod.fst).Nodup := by simp [jsonFields]
    have hfields := Json.fields?_record hnames
    have htext : ∀ o : Option String,
        Json.optional? Json.string? (some (o.elim .null .str)) = some o :=
      fun o => Json.Restores.optional?_elim fun s _ => Json.restores_string s
    have hoperation : Json.optional? Operation.ofJson?
        (some (c.operation.elim .null Operation.toJson)) = some c.operation :=
      Json.Restores.optional?_elim fun op _ => op.restores
    have hcount : ∀ standard n : UInt64,
        Json.defaulted? standard Json.count? (some (.int n.toNat)) = some n :=
      fun _ n => (Json.restores_count n).read_write
    have hmodel : Json.defaulted? {} Row.ofJson? (some c.rowModel.toJson) = some c.rowModel :=
      (Row.restores h).read_write
    have htable : Json.required? Json.string? (some (.str c.table)) = some c.table := rfl
    simp only [jsonFields, List.map_cons, List.map_nil] at hfields
    simp only [ofJson?, toJson_eq, jsonFields, hfields, htable, hoperation, hcount, htext, hmodel,
      Option.bind_eq_bind, Option.bind_some]
    rfl

end EndpointConfig

/-- A batch or a configuration is read as it was written exactly when it holds no double that is not
finite.  What is read of a JSON text in any form holds none, and is the same after it was written
and read again. -/
theorem json_roundTrip :
    (∀ batch : RowBatch, RowBatch.ofJson? batch.toJson = some batch ↔ batch.Finite) ∧
      (∀ c : EndpointConfig, EndpointConfig.ofJson? c.toJson = some c ↔ c.Finite) ∧
      ∀ j : Json, j.Proper →
        (∀ batch : RowBatch, RowBatch.ofJson? j = some batch →
          batch.Finite ∧ RowBatch.ofJson? batch.toJson = some batch) ∧
        ∀ c : EndpointConfig, EndpointConfig.ofJson? j = some c →
          c.Finite ∧ EndpointConfig.ofJson? c.toJson = some c := by
  refine ⟨fun batch => RowBatch.ofJson?_toJson_iff, fun c => EndpointConfig.ofJson?_toJson_iff, ?_⟩
  intro j hj
  constructor
  · intro batch hread
    have hfinite := RowBatch.finite_of_ofJson? hj hread
    exact ⟨hfinite, RowBatch.ofJson?_toJson_iff.2 hfinite⟩
  · intro c hread
    have hfinite := EndpointConfig.finite_of_ofJson? hj hread
    exact ⟨hfinite, EndpointConfig.ofJson?_toJson_iff.2 hfinite⟩

/-- A batch by position with a row by name: a cell that ends early with its value as a pair, and one
with an unknown field, a null and a type as an object. -/
theorem json_roundTrip_forms :
    let j : Json := .arr [.arr [.obj [
      ("cells", .arr [
        .arr [.str "f", .str "q", .arr [.str "float64", .int 1]],
        .obj [("family", .null), ("note", .bool true), ("value_type", .obj [("int32", .null)])]]),
      ("id", .obj [("type", .obj [("bytes", .null)]), ("value", .arr [.int 255])])]]]
    let batch : RowBatch := [{
      id := some (.bytes [255])
      cells := [
        { family := some "f", qualifier := some "q",
          value := some (.float64 ⟨0x3ff0000000000000⟩) },
        { valueType := some .int32 }] }]
    j.Proper ∧ RowBatch.ofJson? j = some batch ∧ RowBatch.ofJson? batch.toJson = some batch := by
  intro j batch
  have hproper : j.Proper := by simp [j]
  have hread : RowBatch.ofJson? j = some batch := by decide +kernel
  obtain ⟨-, -, hagain⟩ := json_roundTrip
  exact ⟨hproper, hread, ((hagain j hproper).1 batch hread).2⟩

end ColumnConnector
