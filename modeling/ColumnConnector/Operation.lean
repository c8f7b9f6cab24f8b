import ColumnConnector.Error
import ColumnConnector.Json.Decode

/-!
# Operations

The four things that an exchange can ask of a table, and their names.
-/

namespace ColumnConnector

/-- What is done with the rows of an exchange. -/
inductive Operation where
  | put
  | get
  | delete
  | scan
deriving DecidableEq, Repr

namespace Operation

/-- What is done when nothing is said. -/
def standard : Operation := .put

def all : List Operation := [.put, .get, .delete, .scan]

/-- The name under which an operation is written. -/
def name : Operation → String
  | .put => "CamelHBasePut"
  | .get => "CamelHBaseGet"
  | .delete => "CamelHBaseDelete"
  | .scan => "CamelHBaseScan"

/-- Every spelling of an operation, all in lowercase. -/
def spellings : List (String × Operation) := [
  ("camelhbaseput", .put), ("put", .put), ("camelhbaseget", .get), ("get", .get),
  ("camelhbasedelete", .delete), ("delete", .delete), ("camelhbasescan", .scan), ("scan", .scan)]

/-- The operation that a text names, in any case and with blanks around it. -/
def read (s : String) : Except ConfigurationFault Operation :=
  let name := Text.lowercase (Text.trim s)
  match spellings.lookup name with
  | some op => .ok op
  | none => .error (.unknownOperation name)

def toJson (op : Operation) : Json := .str op.name

def ofJson? (j : Json) : Option Operation :=
  j.choiceName?.bind fun name => all.find? fun op => op.name = name

end Operation

end ColumnConnector
