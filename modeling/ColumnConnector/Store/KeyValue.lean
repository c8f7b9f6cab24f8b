import ColumnConnector.Bytes

/-!
# Columns and stored cells

A column of a table is addressed by family and qualifier, in the order of the families first.
A stored cell is one version of one column of one row.
-/

namespace ColumnConnector

open Std

/-- The address of a column, as the store keeps it. -/
structure Column where
  family : Bytes
  qualifier : Bytes
deriving DecidableEq, Repr

namespace Column

instance : Ord Column :=
  ⟨compareLex (compareOn Column.family) (compareOn Column.qualifier)⟩

instance : TransOrd Column :=
  inferInstanceAs (TransCmp (compareLex (compareOn Column.family) (compareOn Column.qualifier)))

instance : LawfulEqOrd Column where
  compare_self {a} := by
    have h : (compare a.family a.family).then (compare a.qualifier a.qualifier) = .eq := by
      rw [ReflOrd.compare_self, ReflOrd.compare_self]
      rfl
    exact h
  eq_of_compare {a b} h := by
    obtain ⟨f, q⟩ := a
    obtain ⟨f', q'⟩ := b
    have h : (compare f f').then (compare q q') = .eq := h
    rw [Ordering.then_eq_eq] at h
    rw [LawfulEqOrd.eq_of_compare h.1, LawfulEqOrd.eq_of_compare h.2]

end Column

/-- One version of a cell. -/
structure KeyValue where
  row : Bytes
  family : Bytes
  qualifier : Bytes
  timestamp : Int64
  value : Bytes
deriving DecidableEq, Repr

namespace KeyValue

def isOf (family qualifier : Bytes) (kv : KeyValue) : Bool :=
  kv.family = family && kv.qualifier = qualifier

/-- The later of two versions; the second of two with one timestamp. -/
def later (best : Option KeyValue) (kv : KeyValue) : Option KeyValue :=
  match best with
  | none => some kv
  | some b => if b.timestamp ≤ kv.timestamp then some kv else some b

/-- The version with the greatest timestamp, the last of several. -/
def latest (cells : List KeyValue) : Option KeyValue := cells.foldl later none

end KeyValue

end ColumnConnector
