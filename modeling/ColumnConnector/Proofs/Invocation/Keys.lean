import ColumnConnector.Proofs.Invocation.Scans
import ColumnConnector.Proofs.Mapping.Batches
import ColumnConnector.Proofs.Row.Request
import ColumnConnector.Proofs.Value.Forms

/-!
# Keys and row types

A row is stored under its identifier as the message gave it, and read by a scan as the row type.
The type is declared in the message or taken from the row model of the endpoint, and only in the
first case does the header strategy read the identifier as that type.  So a key comes back as the
row type exactly when it happens to be a stored form of it
(`Endpoint.put_key_roundTrips_iff_form`).
-/

namespace ColumnConnector

/-- The identifier is of the type that the row declares, or of the standard one.  Without a
declared type it may be bytes, too. -/
def Row.TypedId (r : Row) : Prop :=
  ∀ v, r.id = some v → v.type = r.keyType ∨ r.rowType = none ∧ v.type = .bytes

namespace HeaderMapping

theorem type_of_valueOf {declared : Option ValueType} {j : Json} {v : CellValue}
    (h : valueOf declared j = .ok v) :
    v.type = declared.getD .standard ∨ declared = none ∧ v.type = .bytes := by
  unfold valueOf at h
  split at h
  · next raw hraw =>
    cases h
    split at hraw
    · next hall =>
      cases declared with
      | none => exact .inr ⟨rfl, rfl⟩
      | some t =>
        have ht : t = .bytes := by simpa using hall
        exact .inl ht.symm
    · cases hraw
  · exact .inl (ValueType.type_of_parse h)

/-- The identifier of an entry is read as the type that the entry declares. -/
theorem typedId_of_entryRow {m : Message} {index : Nat} {entry : Row}
    (h : entryRow m index = .ok entry) : entry.TypedId := by
  obtain ⟨hid, -⟩ := parts_of_entryRow h
  intro v hv
  rw [hv, valueAt] at hid
  split at hid
  · cases hid
  · obtain ⟨w, hw, hsome⟩ := map_eq_ok_iff.1 hid
    cases hsome
    exact type_of_valueOf hw

theorem typedId_of_resolve {m : Message} {batch : RowBatch} (h : resolve m = .ok batch) :
    ∀ r ∈ batch, r.TypedId := by
  refine forall_resolve ?_ h fun _ _ => typedId_of_entryRow
  intro r c hr
  unfold Row.TypedId Row.keyType
  rw [r.id_addCell, r.rowType_addCell]
  exact hr

end HeaderMapping

/-- An unfiltered scan that comes to a row needs the key to decode as its row type. -/
theorem Row.decode_of_scanned {template : Row} {s : Store} {h : Handle} {start : Option String}
    {bound : Nat} {row : Bytes × RowData} {rows : RowBatch}
    (hrow : row ∈ (template.qualifying start none (s.table h.table)).take bound)
    (hscan : template.scanned s h [] start bound = .ok rows) :
    ∃ v, template.keyType.decode row.1 = .ok v := by
  have hreadable := exists_scanned_unfiltered_iff.1 ⟨rows, hscan⟩ row hrow
  by_contra hnone
  obtain ⟨e, he⟩ := exists_error_iff.2 hnone
  exact hreadable (.key he)

namespace Endpoint

/-- The key of a row that is put comes back as the row type exactly when it is a stored form of
the type.  It is the stored form of the identifier that the message gave, so it does when the
identifier is of the row type.  By the header strategy it does when the message declares the type,
and an identifier without a declared type is a text or bytes, whatever type the row model adds.
Once the row is stored, the unfiltered scans by its row type that come to it succeed only if its
key decodes. -/
theorem put_key_roundTrips_iff_form {e : Endpoint} {n : StrategyName} {m : Message}
    {batch : RowBatch} {r : Row} {p : Put}
    (hbatch : e.batchOf (Registry.builtIn n) m = .ok batch) (hr : r ∈ batch)
    (hput : r.toPut = .ok p) :
    (r.keyType.RoundTrips p.row ↔ r.keyType.Form p.row) ∧
      (∃ rows given id, (Registry.builtIn n).resolve m = .ok rows ∧ given ∈ rows ∧
        r = given.apply e.config.rowModel ∧ given.id = some id ∧ p.row = id.encode ∧
        (id.type = r.keyType → r.keyType.RoundTrips p.row) ∧
        (n = .header → given.rowType ≠ none → r.keyType.RoundTrips p.row) ∧
        (n = .header → given.rowType = none → id.type = .utf8 ∨ id.type = .bytes)) ∧
      ∀ (template : Row) (s : Store) (h : Handle) (start : Option String) (bound : Nat)
        (data : RowData) (rows : RowBatch), template.keyType = r.keyType →
        (p.row, data) ∈ (template.qualifying start none (s.table h.table)).take bound →
        template.scanned s h [] start bound = .ok rows →
        r.keyType.Form p.row ∨ r.keyType = .bool ∧ p.row.length = 1 := by
  obtain ⟨rows, hresolve, rfl⟩ := batchOf_eq_ok_iff.1 hbatch
  obtain ⟨given, hgiven, rfl⟩ := List.mem_map.1 hr
  obtain ⟨id, hid, hkey⟩ := (Row.toPut_eq_ok_iff.1 hput).key
  -- The key is encoded by the type of the identifier, so the row type has to be this one.
  have hsame : id.type = (given.apply e.config.rowModel).keyType →
      (given.apply e.config.rowModel).keyType.RoundTrips p.row := by
    intro htype
    rw [ValueType.roundTrips_iff_form, hkey, ← htype]
    exact ValueType.form_encode id
  have htyped : n = .header → given.TypedId := by
    rintro rfl
    exact HeaderMapping.typedId_of_resolve hresolve given hgiven
  refine ⟨ValueType.roundTrips_iff_form, ⟨rows, given, id, hresolve, hgiven, rfl, hid, hkey, hsame,
    ?_, ?_⟩, ?_⟩
  · intro hn hdeclared
    obtain ⟨t, ht⟩ := Option.ne_none_iff_exists'.1 hdeclared
    rcases htyped hn id hid with htype | ⟨hnone, -⟩
    · refine hsame (htype.trans ?_)
      simp [Row.keyType, Row.apply, ht]
    · exact absurd hnone hdeclared
  · intro hn hnone
    rcases htyped hn id hid with htype | ⟨-, htype⟩
    · rw [htype, Row.keyType, hnone]
      exact .inl rfl
    · exact .inr htype
  · intro template s h start bound data found htype hrow hscan
    obtain ⟨v, hv⟩ := Row.decode_of_scanned hrow hscan
    rw [htype] at hv
    exact ValueType.exists_decode_iff.1 ⟨v, hv⟩

/-- The message declares the type itself, so the key has the eight bytes of it. -/
theorem put_key_roundTrips_declared :
    let e : Endpoint := { config := { table := "t", rowModel := { rowType := some .int32 } } }
    let m : Message := { headers := SortedMap.ofList [
      (Header.rowId, .str "42"), (Header.rowType, .str "long"), (Header.family, .str "f"),
      (Header.qualifier, .str "q")] }
    ∃ r p, e.batchOf (Registry.builtIn .header) m = .ok [r] ∧ r.toPut = .ok p ∧
      p.row = [0, 0, 0, 0, 0, 0, 0, 42] ∧ r.keyType = .int64 ∧ r.keyType.RoundTrips p.row := by
  intro e m
  let r : Row := {
    id := some (.int64 42), rowType := some .int64
    cells := [{ family := some "f", qualifier := some "q" }] }
  let p : Put := ⟨[0, 0, 0, 0, 0, 0, 0, 42], [(⟨[102], [113]⟩, [])]⟩
  have hbatch : e.batchOf (Registry.builtIn .header) m = .ok [r] := by decide +kernel
  have hput : r.toPut = .ok p := by decide +kernel
  obtain ⟨hform, -⟩ := put_key_roundTrips_iff_form hbatch List.mem_cons_self hput
  exact ⟨r, p, hbatch, hput, rfl, rfl, hform.2 rfl⟩

/-- The row model adds the type to an identifier that was read as text: the key does not come back,
and the scan by the row model alone fails on it. -/
theorem put_key_undecodable :
    let e : Endpoint := { config := { table := "t", rowModel := { rowType := some .int64 } } }
    let columns : List (String × Json) := [(Header.family, .str "f"), (Header.qualifier, .str "q")]
    let m : Message :=
      { headers := SortedMap.ofList ((Header.rowId, .str "42") :: (Header.value, .str "x") :: columns) }
    ∃ r p template, e.batchOf (Registry.builtIn .header) m = .ok [r] ∧ r.toPut = .ok p ∧
      ¬ r.keyType.RoundTrips p.row ∧
      e.batchOf (Registry.builtIn .header) { headers := SortedMap.ofList columns } =
        .ok [template] ∧
      template.scanned (Store.flush (.createTable {} "t") { table := "t", pending := [p] })
        { table := "t" } [] none 100 = .error (.conversion (.invalidLength .int64 2)) := by
  intro e columns m
  let c : Cell := { family := some "f", qualifier := some "q" }
  let r : Row := {
    id := some (.utf8 "42"), rowType := some .int64, cells := [{ c with value := some (.utf8 "x") }] }
  let p : Put := ⟨[52, 50], [(⟨[102], [113]⟩, [120])]⟩
  let template : Row := { rowType := some .int64, cells := [c] }
  refine ⟨r, p, template, by decide +kernel, by decide +kernel, ?_, by decide +kernel,
    by decide +kernel⟩
  rintro ⟨v, hdecode, -⟩
  cases hdecode

end Endpoint

end ColumnConnector
