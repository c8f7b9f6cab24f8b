import ColumnConnector.Mapping.Body
import ColumnConnector.Proofs.Json.Records
import Mathlib.Data.List.Induction

/-!
# Messages in JSON

A message is what headers and bodies were set one after the other (`Message.ofEdits`).  Written as
JSON and read again it has the same headers, those that are null included, and the same body, unless
the body is null (`Message.ofJson?_toJson`).

A message without a body is written without the field.  A body that is null is written as null, but a
null field is read like one that was left out, and the body is gone.
-/

namespace ColumnConnector

namespace Json

theorem isNull_iff {j : Json} : j.isNull = true ↔ j = .null := by
  cases j <;> simp [isNull]

/-- The fields of a map are read one by one, and the map is made of them again. -/
theorem map?_ofMap (m : SortedMap String Json) : map? some (ofMap m) = some m := by
  have hfields : (m.entries.mapM fun field => (some field.2).map fun value => (field.1, value)) =
      some m.entries := by
    show m.entries.mapM (fun field => pure (id field)) = pure m.entries
    rw [List.mapM_pure, List.map_id]
  rw [ofMap, map?, hfields, Option.map_some, m.ofList_entries]

/-- A field that may be left out is read as it was written, but for a null. -/
theorem optional?_some_eq (body : Option Json) :
    optional? some body = some (body.filter fun j => !j.isNull) := by
  cases body with
  | none => rfl
  | some j => cases j <;> rfl

end Json

namespace Message

/-! ### What is set in a message -/

/-- A header or the body is set. -/
inductive Edit where
  | header (name : String) (value : Json)
  | body (value : Json)

namespace Edit

def apply (m : Message) : Edit → Message
  | .header name value => m.setHeader name value
  | .body value => m.setBody value

/-- The body, if the body is set. -/
def body? : Edit → Option Json
  | .header _ _ => none
  | .body value => some value

end Edit

/-- The message that the edits make of an empty one. -/
def ofEdits (edits : List Edit) : Message := edits.foldl Edit.apply {}

/-- The body that was set last. -/
def lastBody (edits : List Edit) : Option Json := (edits.filterMap Edit.body?).getLast?

theorem body_ofEdits (edits : List Edit) : (ofEdits edits).body = lastBody edits := by
  induction edits using List.reverseRecOn with
  | nil => rfl
  | append_singleton edits edit ih =>
    unfold ofEdits lastBody at *
    rw [List.foldl_concat, List.filterMap_append]
    cases edit with
    | header name value =>
      show (edits.foldl Edit.apply {}).body = _
      rw [ih]
      show _ = (edits.filterMap Edit.body? ++ []).getLast?
      rw [List.append_nil]
    | body value =>
      show some value = (edits.filterMap Edit.body? ++ [value]).getLast?
      rw [List.getLast?_concat]

/-! ### Written and read -/

/-- The message without a body that is null. -/
def dropNullBody (m : Message) : Message := { m with body := m.body.filter fun j => !j.isNull }

theorem ofJson?_toJson (m : Message) : ofJson? m.toJson = some m.dropNullBody := by
  have hrecord : m.toJson =
      Json.record (Json.present [("headers", some (.ofMap m.headers)), ("body", m.body)]) := by
    rw [toJson, Json.present_cons, Json.present_cons]
    exact congrArg (fun l => Json.record (_ :: l)) (List.append_nil _).symm
  have hfields : m.toJson.fields? ["headers", "body"] = some [some (.ofMap m.headers), m.body] := by
    rw [hrecord]
    exact Json.fields?_record (by simp)
  rw [ofJson?, hfields]
  show (Json.map? some (.ofMap m.headers) >>= fun headers =>
    Json.optional? some m.body >>= fun body => some (Message.mk headers body)) = _
  rw [Json.map?_ofMap, Json.optional?_some_eq]
  rfl

theorem dropNullBody_of_ne {m : Message} (h : m.body ≠ some .null) : m.dropNullBody = m := by
  have hbody : (m.body.filter fun j => !j.isNull) = m.body := by
    cases hm : m.body with
    | none => rfl
    | some j =>
      have hnull : j.isNull = false := by
        rw [← Bool.not_eq_true, Json.isNull_iff]
        rintro rfl
        exact h hm
      rw [Option.filter_some, hnull]
      rfl
  rw [dropNullBody, hbody]

theorem dropNullBody_of_eq {m : Message} (h : m.body = some .null) :
    m.dropNullBody = { m with body := none } := by
  rw [dropNullBody, h]
  rfl

/-- A message made by edits is read as it was written if and only if the body set last is not null,
and only then the batch in its body is resolved as before.  The headers come back in any case.  A null
body, which is no batch, comes back as no body. -/
theorem serialization_ofEdits (edits : List Edit) :
    ∃ m', ofJson? (ofEdits edits).toJson = some m' ∧ m'.headers = (ofEdits edits).headers ∧
      (m' = ofEdits edits ↔ lastBody edits ≠ some .null) ∧
      (BodyMapping.resolve m' = BodyMapping.resolve (ofEdits edits) ↔
        lastBody edits ≠ some .null) ∧
      (lastBody edits = some .null → m'.body = none ∧
        BodyMapping.resolve (ofEdits edits) = .error .malformed ∧
        BodyMapping.resolve m' = .error (.missingField "HBase data body")) := by
  refine ⟨(ofEdits edits).dropNullBody, ofJson?_toJson _, rfl, ?_⟩
  rw [← body_ofEdits]
  generalize ofEdits edits = m
  by_cases hnull : m.body = some .null
  · have hbefore : BodyMapping.resolve m = .error .malformed := by
      rw [BodyMapping.resolve, hnull]
      rfl
    have hafter : BodyMapping.resolve m.dropNullBody = .error (.missingField "HBase data body") := by
      rw [dropNullBody_of_eq hnull]
      rfl
    refine ⟨iff_of_false ?_ (not_not_intro hnull), iff_of_false ?_ (not_not_intro hnull),
      fun _ => ⟨?_, hbefore, hafter⟩⟩
    · intro heq
      have hbody := congrArg Message.body heq
      rw [dropNullBody_of_eq hnull, hnull] at hbody
      cases hbody
    · rw [hbefore, hafter]
      intro heq
      cases heq
    · rw [dropNullBody_of_eq hnull]
  · rw [dropNullBody_of_ne hnull]
    exact ⟨iff_of_true rfl hnull, iff_of_true rfl hnull, fun h => absurd h hnull⟩

/-- A message with nothing but a null body is written with the body and read without it. -/
theorem serialization_loses_null_body :
    ∃ m', ofJson? (ofEdits [.body .null]).toJson = some m' ∧ m' ≠ ofEdits [.body .null] ∧
      BodyMapping.resolve (ofEdits [.body .null]) = .error .malformed ∧
      BodyMapping.resolve m' = .error (.missingField "HBase data body") := by
  refine ⟨{}, ofJson?_toJson _, ?_, rfl, rfl⟩
  intro heq
  cases congrArg Message.body heq

end Message

end ColumnConnector
