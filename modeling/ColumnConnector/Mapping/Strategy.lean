import ColumnConnector.Message
import ColumnConnector.Row.Basic

/-!
# Mapping strategies

A strategy says how a message carries a batch of rows: it reads the batch of an inbound message
and writes the rows of a get or a scan onto the outbound one.  It may refuse to write them, and then
the message stays as far as it was written.
-/

namespace ColumnConnector

/-- A way to carry rows in a message. -/
structure Strategy where
  name : String
  resolve : Message → Except ConnectorError RowBatch
  writeGet : RowBatch → Message → Message
  writeScan : RowBatch → Message → Message
  /-- Why the rows of a get are not written in full, if they are not. -/
  refuseGet : RowBatch → Message → Option ConnectorError := fun _ _ => none
  /-- Why the rows of a scan are not written in full, if they are not. -/
  refuseScan : RowBatch → Message → Option ConnectorError := fun _ _ => none

/-- The two strategies that are always there. -/
inductive StrategyName where
  | header
  | body
deriving DecidableEq, Repr

namespace StrategyName

def name : StrategyName → String
  | .header => "header"
  | .body => "body"

def all : List StrategyName := [.header, .body]

/-- The strategy that a text names, in any case and with blanks around it. -/
def read (s : String) : Except ConfigurationFault StrategyName :=
  let name := Text.lowercase (Text.trim s)
  match all.find? fun n => n.name = name with
  | some n => .ok n
  | none => .error (.unknownStrategy name)

end StrategyName

end ColumnConnector
