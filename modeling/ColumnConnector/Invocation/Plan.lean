import ColumnConnector.Endpoint.Config
import ColumnConnector.Filter.Template
import ColumnConnector.Mapping.Registry

/-!
# Endpoints

An endpoint is a configuration with registered strategies and filter templates.  For each message
it fills in the headers that are missing and then lays out a plan: the operation, the strategy,
and the batch of rows completed by the row model.
-/

namespace ColumnConnector

/-- What a connector works for. -/
structure Endpoint where
  config : EndpointConfig
  registry : Registry := {}
  filters : List FilterTemplate := []

/-- What is to be done for a message. -/
structure Plan where
  operation : Operation
  strategy : Strategy
  batch : RowBatch

namespace Endpoint

/-- Set a header that is absent, if the endpoint has a value for it. -/
def fillHeader (name : String) (value : Option Json) (m : Message) : Message :=
  value.elim m fun j => m.defaultHeader name j

/-- Fill the missing headers from the configuration. -/
def fillHeaders (e : Endpoint) (m : Message) : Message :=
  let bound := if e.config.maxResults = 0 then none else some (.int e.config.maxResults.toNat)
  let operation := e.config.operation.getD .standard
  fillHeader Header.operation (some (.str operation.name))
    (fillHeader Header.strategyClass (e.config.strategyClass.map .str)
      (fillHeader Header.strategy (e.config.strategyName.map .str)
        (fillHeader Header.maxScanResults bound m)))

/-- The operation that a message asks for. -/
def operationOf (m : Message) : Except ConnectorError Operation :=
  match m.headerText Header.operation with
  | none => .ok .standard
  | some name =>
    match Operation.read name with
    | .ok op => .ok op
    | .error fault => .error (.configuration fault)

/-- The batch of a message, completed by the row model. -/
def batchOf (e : Endpoint) (s : Strategy) (m : Message) : Except ConnectorError RowBatch :=
  (·.map fun r => r.apply e.config.rowModel) <$> s.resolve m

/-- The plan for a message. -/
def plan (e : Endpoint) (m : Message) : Except ConnectorError Plan := do
  let operation ← operationOf m
  let strategy ← e.registry.choose m
  let batch ← e.batchOf strategy m
  return { operation, strategy, batch }

end Endpoint

end ColumnConnector
