import ColumnConnector.Json.Decode
import ColumnConnector.Readable

/-!
# Settings

A connector is configured by a flat map of named texts, from which typed settings are read.
-/

namespace ColumnConnector

/-- The settings of a connector of some type. -/
structure Settings where
  connectorType : String
  properties : SortedMap String String := ∅
deriving DecidableEq

namespace Settings

def get (s : Settings) (key : String) : Option String := s.properties.get? key

/-- A setting that must be there. -/
def require (s : Settings) (key : String) : Except ConnectorError String :=
  match s.get key with
  | some value => .ok value
  | none => .error (.missingConfig key)

/-- A setting read as a value of some type. -/
def getAs (α : Type) [Readable α] (s : Settings) (key : String) :
    Except ConnectorError (Option α) :=
  match (s.get key).map (Readable.readTrimmed α) with
  | none => .ok none
  | some (.ok value) => .ok (some value)
  | some (.error reason) =>
    .error (.configuration (.invalidValue ("value for '" ++ key ++ "'") reason))

def set (s : Settings) (key value : String) : Settings :=
  { s with properties := s.properties.insert key value }

/-- What is left of a text behind its start. -/
def behind? (start text : String) : Option String :=
  if start.toList.isPrefixOf text.toList then
    some (String.ofList (text.toList.drop start.toList.length))
  else none

/-- The settings whose keys begin in the given way, under what is left of the keys. -/
def group (s : Settings) (start : String) : SortedMap String String :=
  SortedMap.ofList (s.properties.entries.filterMap fun e =>
    (behind? start e.1).map fun key => (key, e.2))

/-- The texts of a map as a JSON object. -/
def mapJson (m : SortedMap String String) : Json :=
  .obj (m.entries.map fun e => (e.1, Json.str e.2))

def toJson (s : Settings) : Json :=
  .record [("connector_type", .str s.connectorType), ("properties", mapJson s.properties)]

def ofJson? (j : Json) : Option Settings :=
  match j.fields? ["connector_type", "properties"] with
  | some [connectorType, properties] => do
    let connectorType ← Json.required? Json.string? connectorType
    let properties ← Json.required? (Json.map? Json.string?) properties
    return { connectorType, properties }
  | _ => none

end Settings

end ColumnConnector
