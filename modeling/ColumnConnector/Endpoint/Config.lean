import ColumnConnector.Header
import ColumnConnector.Row.Json
import ColumnConnector.Settings

/-!
# Endpoint configuration

What an endpoint is set up with: its table, the defaults that it fills into messages, the size of
its pool and a row model.  It is read from flat settings, in which the columns of the row model
are numbered from one and end at the first number that names neither family nor qualifier, or
from JSON.
-/

namespace ColumnConnector

/-- The bound of a scan when none is set. -/
def standardMaxResults : UInt64 := 100

/-- The number of pooled handles when none is set. -/
def standardPoolSize : UInt64 := 10

/-- The configuration of an endpoint. -/
structure EndpointConfig where
  table : String
  operation : Option Operation := none
  maxResults : UInt64 := standardMaxResults
  strategyName : Option String := none
  strategyClass : Option String := none
  poolSize : UInt64 := standardPoolSize
  rowModel : Row := {}
deriving DecidableEq

namespace EndpointConfig

/-- Do the settings name a column of this number? -/
def hasColumn (s : Settings) (index : Nat) : Bool :=
  ["family", "qualifier"].any fun name => (s.get (Header.numbered name index)).isSome

/-- The numbers of the model columns up to the first gap. There are no more of them than
settings. -/
def columnNumbers (s : Settings) : List Nat :=
  (List.range' 1 s.properties.size).takeWhile (hasColumn s)

/-- The model cell of a number. -/
def modelCell (s : Settings) (index : Nat) : Except ConnectorError Cell :=
  match s.get (Header.numbered "family" index), s.get (Header.numbered "qualifier" index) with
  | some family, some qualifier => do
    let valueType ← s.getAs ValueType (Header.numbered "value.type" index)
    return { family := some family, qualifier := some qualifier, valueType }
  | _, _ => .error (.configuration (.incompleteColumn index))

def readModel (s : Settings) : Except ConnectorError Row := do
  let rowType ← s.getAs ValueType "row.type"
  let cells ← (columnNumbers s).mapM (modelCell s)
  return cells.foldl Row.addCell { rowType }

def readOperation (s : Settings) : Except ConnectorError (Option Operation) :=
  match s.get "operation" with
  | none => .ok none
  | some name =>
    match Operation.read name with
    | .ok op => .ok (some op)
    | .error fault => .error (.configuration fault)

/-- The configuration that settings describe. -/
def ofSettings (s : Settings) : Except ConnectorError EndpointConfig := do
  let table ← s.require "table"
  let operation ← readOperation s
  let maxResults := (← s.getAs UInt64 "max.results").getD standardMaxResults
  let poolSize := (← s.getAs UInt64 "pool.max.size").getD standardPoolSize
  if poolSize = 0 then throw (.configuration .emptyPool)
  let rowModel ← readModel s
  return {
    table, operation, maxResults, poolSize, rowModel
    strategyName := s.get "mapping.strategy.name"
    strategyClass := s.get "mapping.strategy.class.name" }

def toJson (c : EndpointConfig) : Json :=
  .record [
    ("table_name", .str c.table),
    ("operation", c.operation.elim .null Operation.toJson),
    ("max_results", .int c.maxResults.toNat),
    ("mapping_strategy_name", c.strategyName.elim .null .str),
    ("mapping_strategy_class_name", c.strategyClass.elim .null .str),
    ("pool_max_size", .int c.poolSize.toNat),
    ("row_model", c.rowModel.toJson)]

def ofJson? (j : Json) : Option EndpointConfig :=
  match j.fields? ["table_name", "operation", "max_results", "mapping_strategy_name",
      "mapping_strategy_class_name", "pool_max_size", "row_model"] with
  | some [table, operation, maxResults, strategyName, strategyClass, poolSize, rowModel] => do
    let table ← Json.required? Json.string? table
    let operation ← Json.optional? Operation.ofJson? operation
    let maxResults ← Json.defaulted? standardMaxResults Json.count? maxResults
    let strategyName ← Json.optional? Json.string? strategyName
    let strategyClass ← Json.optional? Json.string? strategyClass
    let poolSize ← Json.defaulted? standardPoolSize Json.count? poolSize
    let rowModel ← Json.defaulted? {} Row.ofJson? rowModel
    return { table, operation, maxResults, strategyName, strategyClass, poolSize, rowModel }
  | _ => none

end EndpointConfig

end ColumnConnector
