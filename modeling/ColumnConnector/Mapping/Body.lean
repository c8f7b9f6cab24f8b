import ColumnConnector.Mapping.Strategy
import ColumnConnector.Row.Json

/-!
# Rows in the body

The body of a message is a whole batch in JSON, and results replace the body in the same form.
-/

namespace ColumnConnector.BodyMapping

/-- The batch in the body of a message. -/
def resolve (m : Message) : Except ConnectorError RowBatch :=
  match m.body with
  | none => .error (.missingField "HBase data body")
  | some body =>
    match RowBatch.ofJson? body with
    | some batch => .ok batch
    | none => .error .malformed

def write (batch : RowBatch) (m : Message) : Message := m.setBody (RowBatch.toJson batch)

def strategy : Strategy where
  name := "BodyMappingStrategy"
  resolve := resolve
  writeGet := write
  writeScan := write

end ColumnConnector.BodyMapping
