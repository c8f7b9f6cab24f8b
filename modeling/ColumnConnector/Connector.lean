import ColumnConnector.Invocation.Work
import ColumnConnector.Store.Pool

/-!
# The connector

Processing an exchange takes a handle from the pool, fills in the headers of the inbound message,
lays out the plan and carries it out, writes the rows of a get or a scan onto the outbound
message, counts, and gives the handle back, whatever came of it.
-/

namespace ColumnConnector

/-- The outbound message before results are written onto it: it takes over the inbound headers. -/
def Exchange.outbound (x : Exchange) : Message := x.outputOrNew.overlayHeaders x.input.headers

/-- The exchange with results on its outbound message. -/
def Exchange.deliver (x : Exchange) (write : Message → Message) : Exchange :=
  { x with output := some (write x.outbound) }

/-- An endpoint at work on a connection. -/
structure Connector (σ : Type) (π : Type := Pool) where
  endpoint : Endpoint
  connection : σ
  pool : π
  counters : Counters := {}

namespace Connector

variable {σ π : Type} [Pooling π]

/-- A connector with an empty pool. -/
def start (e : Endpoint) (connection : σ) : Connector σ π where
  endpoint := e
  connection := connection
  pool := Pooling.ofSize e.config.table e.config.poolSize.toNat

variable [Connection σ]

/-- The outcome of an exchange on a handle: the result, the exchange, the session and the counters
afterwards. -/
def invoke (e : Endpoint) (x : Exchange) (s : Session σ) (c : Counters) :
    Except ConnectorError Unit × Exchange × Session σ × Counters :=
  let x := { x with input := e.fillHeaders x.input }
  match e.plan x.input with
  | .error err => (.error err, x, s, c.recordError)
  | .ok plan =>
    match Work.perform e x.input plan s with
    | .error err s => (.error err, x, s, c.recordError)
    | .ok outcome s =>
      let written := ((outcome.writing? plan.strategy).map x.deliver).getD x
      match outcome.refusal? plan.strategy x.outbound with
      | none => (.ok (), written, s, outcome.record c)
      | some err => (.error err, written, s, (outcome.record c).recordError)

/-- Process an exchange.  There is no result as long as no handle is free. -/
def process (k : Connector σ π) (x : Exchange) :
    Option (Except ConnectorError Unit) × Exchange × Connector σ π :=
  match Pooling.checkout k.pool k.connection with
  | (.waiting, pool, connection) => (none, x, { k with pool, connection })
  | (.refused e, pool, connection) =>
    (some (.error (.store e)), x, { k with pool, connection, counters := k.counters.recordError })
  | (.granted h, pool, connection) =>
    let (result, x, s, counters) := invoke k.endpoint x ⟨connection, h⟩ k.counters
    (some result, x,
      { k with pool := Pooling.release pool s.handle, connection := s.connection, counters })

end Connector

end ColumnConnector
