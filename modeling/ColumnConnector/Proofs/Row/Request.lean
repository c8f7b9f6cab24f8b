import ColumnConnector.Proofs.Outcomes
import ColumnConnector.Row.Request

/-!
# What a row writes

`Row.Writes` describes the put of a row without mention of failures: the key is the identifier in
stored form, and cell by cell the column and the stored value are written.  `toPut_eq_ok_iff` says
that this is what a row is turned into.
-/

namespace ColumnConnector

/-- The bytes that stand for the value of a cell: none for a missing value, else the stored form of
the value, taken as one of the declared type first. -/
inductive Cell.Stores (c : Cell) : Bytes → Prop where
  | null : c.value = none → c.Stores []
  | plain {v : CellValue} : c.value = some v → c.valueType = none → c.Stores v.encode
  | declared {v w : CellValue} {t : ValueType} :
      c.value = some v → c.valueType = some t → v.coerce t = .ok w → c.Stores w.encode

/-- A column and the bytes that a cell writes there. -/
structure Cell.Writes (c : Cell) (written : Column × Bytes) : Prop where
  column : ∃ family qualifier, c.family = some family ∧ c.qualifier = some qualifier ∧
    written.1 = ⟨Utf8.encode family, Utf8.encode qualifier⟩
  stored : c.Stores written.2

/-- The key under which a row is stored. -/
def Row.HasKey (r : Row) (key : Bytes) : Prop := ∃ v, r.id = some v ∧ key = v.encode

/-- The put that a row with cells amounts to. -/
structure Row.Writes (r : Row) (p : Put) : Prop where
  key : r.HasKey p.row
  cells : List.Forall₂ Cell.Writes r.cells p.cells
  nonempty : r.cells ≠ []

namespace Cell

theorem column_eq_ok_iff {c : Cell} {column : Column} :
    c.column = .ok column ↔ ∃ family qualifier, c.family = some family ∧
      c.qualifier = some qualifier ∧ column = ⟨Utf8.encode family, Utf8.encode qualifier⟩ := by
  unfold Cell.column
  constructor
  · intro h
    split at h
    · cases h
    · cases h
    · next f q hf hq =>
      cases h
      exact ⟨f, q, hf, hq, rfl⟩
  · rintro ⟨f, q, hf, hq, rfl⟩
    rw [hf, hq]

theorem stored_eq_ok_iff {c : Cell} {raw : Bytes} : c.stored = .ok raw ↔ c.Stores raw := by
  unfold Cell.stored
  constructor
  · intro h
    split at h
    · next hv =>
      cases h
      exact .null hv
    · next v hv ht =>
      cases h
      exact .plain hv ht
    · next v t hv ht =>
      obtain ⟨w, hw, rfl⟩ := map_eq_ok_iff.1 h
      exact .declared hv ht hw
  · intro h
    cases h with
    | null hv => rw [hv]
    | plain hv ht => rw [hv, ht]
    | declared hv ht hw =>
      rw [hv, ht]
      exact map_eq_ok_iff.2 ⟨_, hw, rfl⟩

theorem write_eq_ok_iff {c : Cell} {written : Column × Bytes} :
    c.write = .ok written ↔ c.Writes written := by
  obtain ⟨column, raw⟩ := written
  unfold Cell.write
  constructor
  · intro h
    split at h
    · cases h
    · next column' hcolumn =>
      split at h
      · cases h
      · next raw' hraw =>
        cases h
        exact ⟨column_eq_ok_iff.1 hcolumn, stored_eq_ok_iff.1 hraw⟩
  · intro h
    rw [column_eq_ok_iff.2 h.column, stored_eq_ok_iff.2 h.stored]

end Cell

namespace Row

theorem key_eq_ok_iff {r : Row} {key : Bytes} : r.key = .ok key ↔ r.HasKey key := by
  unfold Row.key HasKey
  cases r.id with
  | none => simp
  | some v => simp [eq_comm]

theorem keyOfCells_eq_ok_iff {r : Row} {key : Bytes} :
    r.keyOfCells = .ok key ↔ r.HasKey key ∧ r.cells ≠ [] := by
  rw [keyOfCells, bind_eq_ok_iff]
  constructor
  · rintro ⟨key', hkey, h⟩
    split at h
    · cases h
    · next hcells =>
      cases h
      exact ⟨key_eq_ok_iff.1 hkey, by simpa using hcells⟩
  · rintro ⟨hkey, hcells⟩
    refine ⟨key, key_eq_ok_iff.2 hkey, ?_⟩
    rw [if_neg (by simpa using hcells)]
    rfl

theorem toPut_eq_ok_iff {r : Row} {p : Put} : r.toPut = .ok p ↔ r.Writes p := by
  rw [toPut, bind_eq_ok_iff]
  constructor
  · rintro ⟨key, hkey, h⟩
    obtain ⟨cells, hcells, hput⟩ := bind_eq_ok_iff.1 h
    cases hput
    obtain ⟨hhas, hne⟩ := keyOfCells_eq_ok_iff.1 hkey
    exact ⟨hhas, (mapM_eq_ok_iff.1 hcells).imp fun _ _ => Cell.write_eq_ok_iff.1, hne⟩
  · intro h
    refine ⟨p.row, keyOfCells_eq_ok_iff.2 ⟨h.key, h.nonempty⟩, bind_eq_ok_iff.2 ⟨p.cells, ?_, rfl⟩⟩
    exact mapM_eq_ok_iff.2 (h.cells.imp fun _ _ => Cell.write_eq_ok_iff.2)

end Row

end ColumnConnector
