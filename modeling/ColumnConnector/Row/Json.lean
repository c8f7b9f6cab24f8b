import ColumnConnector.Row.Basic
import ColumnConnector.Value.Json

/-!
# Rows in JSON

Cells and rows are records whose absent parts are left out.  A batch is a record of its rows.
-/

namespace ColumnConnector

namespace Cell

def toJson (c : Cell) : Json :=
  .record (
    Json.optionalField "family" (c.family.map .str) ++
    Json.optionalField "qualifier" (c.qualifier.map .str) ++
    Json.optionalField "value" (c.value.map CellValue.toJson) ++
    Json.optionalField "value_type" (c.valueType.map ValueType.toJson) ++
    Json.optionalField "timestamp" (c.timestamp.map .ofInt64))

def ofJson? (j : Json) : Option Cell :=
  match j.fields? ["family", "qualifier", "value", "value_type", "timestamp"] with
  | some [family, qualifier, value, valueType, timestamp] => do
    let family ← Json.optional? Json.string? family
    let qualifier ← Json.optional? Json.string? qualifier
    let value ← Json.optional? CellValue.ofJson? value
    let valueType ← Json.optional? ValueType.ofJson? valueType
    let timestamp ← Json.optional? Json.int64? timestamp
    return { family, qualifier, value, valueType, timestamp }
  | _ => none

end Cell

namespace Row

def toJson (r : Row) : Json :=
  .record (
    Json.optionalField "id" (r.id.map CellValue.toJson) ++
    Json.optionalField "row_type" (r.rowType.map ValueType.toJson) ++
    Json.optionalField "timestamp" (r.timestamp.map .ofInt64) ++
    [("cells", .arr (r.cells.map Cell.toJson))])

def ofJson? (j : Json) : Option Row :=
  match j.fields? ["id", "row_type", "timestamp", "cells"] with
  | some [id, rowType, timestamp, cells] => do
    let id ← Json.optional? CellValue.ofJson? id
    let rowType ← Json.optional? ValueType.ofJson? rowType
    let timestamp ← Json.optional? Json.int64? timestamp
    let cells ← Json.defaulted? [] (Json.list? Cell.ofJson?) cells
    return { id, rowType, timestamp, cells }
  | _ => none

end Row

namespace RowBatch

def toJson (batch : RowBatch) : Json := .record [("rows", .arr (batch.map Row.toJson))]

def ofJson? (j : Json) : Option RowBatch :=
  match j.fields? ["rows"] with
  | some [rows] => Json.required? (Json.list? Row.ofJson?) rows
  | _ => none

end RowBatch

end ColumnConnector
