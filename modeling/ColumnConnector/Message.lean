import ColumnConnector.Json.Decode
import ColumnConnector.Json.Render
import ColumnConnector.Readable

/-!
# Messages and exchanges

A message has named headers and may have a body, all JSON values.  A header that is null counts
as absent though it stays in the message; a body that is null is a body.

An exchange pairs the inbound message with an outbound one, which exists from the moment it is
first written to.
-/

namespace ColumnConnector

/-- Headers in name order and a body. -/
structure Message where
  headers : SortedMap String Json := ∅
  body : Option Json := none

namespace Message

/-- The value of a header that is there and not null. -/
def header (m : Message) (name : String) : Option Json :=
  (m.headers.get? name).filter fun j => !j.isNull

def hasHeader (m : Message) (name : String) : Bool := (m.header name).isSome

/-- The text of a header. -/
def headerText (m : Message) (name : String) : Option String := (m.header name).map Json.text

/-- A header read as a value of some type. -/
def headerAs (α : Type) [Readable α] (m : Message) (name : String) : Option (Except String α) :=
  (m.headerText name).map (Readable.readTrimmed α)

def setHeader (m : Message) (name : String) (value : Json) : Message :=
  { m with headers := m.headers.insert name value }

/-- Set a header that is absent. -/
def defaultHeader (m : Message) (name : String) (value : Json) : Message :=
  if m.hasHeader name then m else m.setHeader name value

def setBody (m : Message) (body : Json) : Message := { m with body := some body }

/-- Lay other headers over those of the message. -/
def overlayHeaders (m : Message) (headers : SortedMap String Json) : Message :=
  { m with headers := m.headers.overlay headers }

def toJson (m : Message) : Json :=
  .record (("headers", .ofMap m.headers) :: Json.optionalField "body" m.body)

def ofJson? (j : Json) : Option Message :=
  match j.fields? ["headers", "body"] with
  | some [headers, body] => do
    let headers ← Json.defaulted? ∅ (Json.map? some) headers
    let body ← Json.optional? some body
    return { headers, body }
  | _ => none

end Message

/-- An inbound message with the outbound message it leads to. -/
structure Exchange where
  input : Message := {}
  output : Option Message := none

namespace Exchange

/-- The outbound message, empty when there is none yet. -/
def outputOrNew (x : Exchange) : Message := x.output.getD {}

end Exchange

end ColumnConnector
