import ColumnConnector.Proofs.Filter.Acceptance
import ColumnConnector.Proofs.Value.Order

/-!
# Comparisons of stored values

The store compares bytes.  `CellValue.StoredBefore` is the order of the values that it sees: byte
strings, texts and truth values come in their own order, and so do whole numbers of one sign, but every
negative number comes behind the others, since its sign is the first bit of its stored form
(`CellValue.compare_encode_lt_iff`).

With values of one type, a scan returns its rows in this order and a column test decides it.
-/

namespace ColumnConnector

namespace CellValue

/-! ### The order of the values -/

/-- The order of the values of a type: byte strings by their bytes and texts by their code points,
like words in a dictionary, false before true, and whole numbers as numbers. -/
inductive Before : CellValue → CellValue → Prop where
  | bytes {r s : Bytes} (h : r.map UInt8.toNat < s.map UInt8.toNat) : Before (.bytes r) (.bytes s)
  | utf8 {s t : String} (h : s.toList.map Char.toNat < t.toList.map Char.toNat) :
    Before (.utf8 s) (.utf8 t)
  | int32 {m n : Int32} (h : m.toInt < n.toInt) : Before (.int32 m) (.int32 n)
  | int64 {m n : Int64} (h : m.toInt < n.toInt) : Before (.int64 m) (.int64 n)
  | bool : Before (.bool false) (.bool true)

def isNegative : CellValue → Bool
  | .int32 n => n.toInt < 0
  | .int64 n => n.toInt < 0
  | _ => false

/-- The order of the stored values of a type: as the values, but the other way round between a
negative number and one that is not. -/
def StoredBefore (a b : CellValue) : Prop :=
  if a.isNegative = b.isNegative then a.Before b else b.Before a

variable {a b : CellValue}

theorem before_int32_iff {m n : Int32} : Before (.int32 m) (.int32 n) ↔ m.toInt < n.toInt :=
  ⟨fun | .int32 h => h, .int32⟩

theorem before_int64_iff {m n : Int64} : Before (.int64 m) (.int64 n) ↔ m.toInt < n.toInt :=
  ⟨fun | .int64 h => h, .int64⟩

theorem storedBefore_bytes_iff {r s : Bytes} :
    StoredBefore (.bytes r) (.bytes s) ↔ r.map UInt8.toNat < s.map UInt8.toNat :=
  ⟨fun | .bytes h => h, Before.bytes⟩

theorem storedBefore_utf8_iff {s t : String} :
    StoredBefore (.utf8 s) (.utf8 t) ↔ s.toList.map Char.toNat < t.toList.map Char.toNat :=
  ⟨fun | .utf8 h => h, Before.utf8⟩

theorem storedBefore_bool_iff {x y : Bool} :
    StoredBefore (.bool x) (.bool y) ↔ x = false ∧ y = true :=
  ⟨fun | .bool => ⟨rfl, rfl⟩, fun ⟨hx, hy⟩ => hx ▸ hy ▸ Before.bool⟩

/-! ### The order of the stored forms -/

theorem compare_nat_list_lt_iff {l l' : List Nat} : compare l l' = .lt ↔ l < l' := by
  induction l generalizing l' with
  | nil =>
    cases l' with
    | nil => simp
    | cons n l' => simp
  | cons m l ih =>
    cases l' with
    | nil => simp
    | cons n l' =>
      rw [List.compare_cons_cons, Ordering.then_eq_lt, Nat.compare_eq_lt, Nat.compare_eq_eq, ih,
        List.cons_lt_cons_iff]

/-- In two's complement words compare like the numbers, unless these differ in sign. -/
theorem toNat_lt_toNat_iff {width : Nat} (x y : BitVec width) : x.toNat < y.toNat ↔
    if x.toInt < 0 ↔ y.toInt < 0 then x.toInt < y.toInt else y.toInt < x.toInt := by
  have hx := x.isLt
  have hy := y.isLt
  rw [BitVec.toInt_eq_toNat_cond, BitVec.toInt_eq_toNat_cond]
  generalize 2 ^ width = size at *
  split_ifs <;> omega

/-- The stored forms compare like the values that the store sees. -/
theorem compare_encode_lt_iff (htype : a.type = b.type) (hfloat : a.type ≠ .float64) :
    compare a.encode b.encode = .lt ↔ a.StoredBefore b := by
  cases a with
  | float64 => exact absurd rfl hfloat
  | bytes r =>
    cases b with
    | bytes s =>
      rw [storedBefore_bytes_iff, ← compare_nat_list_lt_iff, Bytes.compare_map_toNat]
      exact Iff.rfl
    | utf8 | int32 | int64 | float64 | bool => cases htype
  | utf8 s =>
    cases b with
    | utf8 t =>
      rw [storedBefore_utf8_iff, ← compare_nat_list_lt_iff, ← Utf8.compare_encode]
      exact Iff.rfl
    | bytes | int32 | int64 | float64 | bool => cases htype
  | int32 m =>
    cases b with
    | int32 n =>
      rw [StoredBefore, before_int32_iff, before_int32_iff, encode, encode,
        Bytes.compare_bigEndian m.toUInt32.toNat_lt n.toUInt32.toNat_lt, Nat.compare_eq_lt]
      simp only [isNegative, decide_eq_decide]
      exact toNat_lt_toNat_iff m.toBitVec n.toBitVec
    | bytes | utf8 | int64 | float64 | bool => cases htype
  | int64 m =>
    cases b with
    | int64 n =>
      rw [StoredBefore, before_int64_iff, before_int64_iff, encode, encode,
        Bytes.compare_bigEndian m.toUInt64.toNat_lt n.toUInt64.toNat_lt, Nat.compare_eq_lt]
      simp only [isNegative, decide_eq_decide]
      exact toNat_lt_toNat_iff m.toBitVec n.toBitVec
    | bytes | utf8 | int32 | float64 | bool => cases htype
  | bool x =>
    cases b with
    | bool y =>
      rw [storedBefore_bool_iff]
      cases x <;> cases y <;> decide
    | bytes | utf8 | int32 | int64 | float64 => cases htype

theorem compare_encode_eq_iff (htype : a.type = b.type) :
    compare a.encode b.encode = .eq ↔ a = b := by
  rw [Std.compare_eq_iff_eq]
  refine ⟨?_, congrArg encode⟩
  intro h
  have hdecode := ValueType.decode_encode a
  rw [h, htype, ValueType.decode_encode b] at hdecode
  exact (Except.ok.inj hdecode).symm

theorem compare_encode_gt_iff (htype : a.type = b.type) (hfloat : a.type ≠ .float64) :
    compare a.encode b.encode = .gt ↔ b.StoredBefore a := by
  rw [Std.OrientedCmp.gt_iff_lt]
  exact compare_encode_lt_iff htype.symm (htype ▸ hfloat)

end CellValue

/-! ### What the store decides -/

/-- The comparison holds of the first value and the second, in the order that the store sees. -/
def CompareOp.Holds (a b : CellValue) : CompareOp → Prop
  | .less => a.StoredBefore b
  | .lessOrEqual => a.StoredBefore b ∨ a = b
  | .equal => a = b
  | .notEqual => a ≠ b
  | .greaterOrEqual => b.StoredBefore a ∨ a = b
  | .greater => b.StoredBefore a

theorem CompareOp.accepts_iff_holds {a b : CellValue} (htype : a.type = b.type)
    (hfloat : a.type ≠ .float64) (op : CompareOp) :
    op.accepts (compare a.encode b.encode) = true ↔ op.Holds a b := by
  have hlt := CellValue.compare_encode_lt_iff htype hfloat
  have heq := CellValue.compare_encode_eq_iff htype
  have hgt := CellValue.compare_encode_gt_iff htype hfloat
  cases op <;> simp only [accepts, Holds, ne_eq, ← hlt, ← heq, ← hgt, decide_eq_true_eq] <;>
    cases compare a.encode b.encode <;> decide

theorem Filter.accepts_column_of_newest {key : Bytes} {cells : List KeyValue} {column : Column}
    {kv : KeyValue} (h : KeyValue.NewestOf cells column kv) (op : CompareOp) (operand : Bytes)
    (required : Bool) :
    (Filter.column column.family column.qualifier op operand required).accepts key cells =
      op.accepts (compare kv.value operand) := by
  have hlatest := KeyValue.latest_of_newest h
  rw [Filter.accepts, hlatest]

/-- The rows of a scan come in ascending order of their keys, none of them before the start. -/
theorem Table.scan_ascending (t : Table) (s : Scan) :
    (t.scan s).Pairwise (fun r r' => compare r.row r'.row = .lt) ∧
      ∀ start, s.start = some start → ∀ r ∈ t.scan s, compare r.row start ≠ .lt := by
  rw [scan_eq]
  refine ⟨?_, ?_⟩
  · rw [List.pairwise_map]
    exact t.ascending.filter _
  · intro start hstart r hr
    obtain ⟨row, hrow, rfl⟩ := List.mem_map.1 hr
    have hreturned := (List.mem_filter.1 hrow).2
    rw [Scan.returns, hstart, Bool.and_eq_true] at hreturned
    intro hlt
    have hle : (compare start row.1).isLE = true := hreturned.1
    rw [Std.OrientedOrd.eq_swap, hlt] at hle
    cases hle

namespace CellValue

/-- Values of one type other than doubles are stored in the order `StoredBefore`: the forms compare in
it, the rows that have them as keys come in it when a table is scanned, from the start of the scan on,
and a column test whose operand is the form of one holds of a row whose newest value is the form of the
other exactly if the comparison holds in it. -/
theorem stored_order {a b : CellValue} (htype : a.type = b.type) (hfloat : a.type ≠ .float64) :
    ((compare a.encode b.encode = .lt ↔ a.StoredBefore b) ∧
      (compare a.encode b.encode = .eq ↔ a = b) ∧
      (compare a.encode b.encode = .gt ↔ b.StoredBefore a)) ∧
    (∀ (t : Table) (s : Scan),
      (t.scan s).Pairwise (fun r r' => r.row = a.encode → r'.row = b.encode → a.StoredBefore b) ∧
      (s.start = some b.encode → ∀ r ∈ t.scan s, r.row = a.encode → ¬ a.StoredBefore b)) ∧
    ∀ (column : Column) (op : CompareOp) (required : Bool) (key : Bytes) (cells : List KeyValue)
      (kv : KeyValue), KeyValue.NewestOf cells column kv → kv.value = a.encode →
      ((Filter.column column.family column.qualifier op b.encode required).accepts key cells = true ↔
        op.Holds a b) := by
  have hlt := compare_encode_lt_iff htype hfloat
  refine ⟨⟨hlt, compare_encode_eq_iff htype, compare_encode_gt_iff htype hfloat⟩, ?_, ?_⟩
  · intro t s
    obtain ⟨hascending, hstart⟩ := t.scan_ascending s
    refine ⟨hascending.imp ?_, ?_⟩
    · intro r r' hless hr hr'
      rwa [← hlt, ← hr, ← hr']
    · intro hfirst r hr hrow
      rw [← hlt, ← hrow]
      exact hstart _ hfirst r hr
  · intro column op required key cells kv hnewest hvalue
    rw [Filter.accepts_column_of_newest hnewest, hvalue]
    exact op.accepts_iff_holds htype hfloat

/-- A negative number counts as greater than a positive one; a version of an older time that counts as
less changes nothing. -/
theorem stored_order_signs :
    let a : CellValue := .int32 (-1)
    let b : CellValue := .int32 1
    let kv : KeyValue := ⟨[114], [102], [113], 2, a.encode⟩
    let cells : List KeyValue := [kv, ⟨[114], [102], [113], 1, [0, 0, 0, 0]⟩]
    b.StoredBefore a ∧ KeyValue.NewestOf cells ⟨[102], [113]⟩ kv ∧
      (Filter.column [102] [113] .greater b.encode true).accepts [114] cells = true ∧
      (Filter.column [102] [113] .less b.encode true).accepts [114] cells = false := by
  intro a b kv cells
  obtain ⟨⟨hlt, -, hgt⟩, -, haccepts⟩ := stored_order (a := a) (b := b) rfl (by decide)
  have hafter : b.StoredBefore a := hgt.1 (by decide +kernel)
  have hnewest : KeyValue.NewestOf cells ⟨[102], [113]⟩ kv :=
    ⟨[], [⟨[114], [102], [113], 1, [0, 0, 0, 0]⟩], by decide +kernel, by simp, by decide⟩
  have htest := fun op => haccepts ⟨[102], [113]⟩ op true [114] cells kv hnewest rfl
  refine ⟨hafter, hnewest, (htest .greater).2 hafter, ?_⟩
  rw [← Bool.not_eq_true, htest .less]
  exact mt hlt.2 (by decide +kernel)

end CellValue

end ColumnConnector
