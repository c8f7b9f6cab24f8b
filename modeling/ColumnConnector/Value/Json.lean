import ColumnConnector.Json.Decode
import ColumnConnector.Value.Basic

/-!
# Values in JSON

A value is written as a record of its type and its content; bytes are an array of numbers.  It is
read from that record, or from an array of the name of the type and the content.
-/

namespace ColumnConnector

namespace ValueType

def toJson (t : ValueType) : Json := .str t.name

def ofName? (name : String) : Option ValueType := ValueType.all.find? fun t => t.name = name

def ofJson? (j : Json) : Option ValueType := j.choiceName?.bind ofName?

end ValueType

namespace Json

def ofBytes (raw : Bytes) : Json := .arr (raw.map fun b => .int b.toNat)

def ofInt32 (n : Int32) : Json := .int n.toInt

def ofInt64 (n : Int64) : Json := .int n.toInt

end Json

namespace CellValue

/-- The content of a value without its type. -/
def contentJson : CellValue → Json
  | .bytes raw => .ofBytes raw
  | .utf8 s => .str s
  | .int32 n => .ofInt32 n
  | .int64 n => .ofInt64 n
  | .float64 x => .ofFloat x
  | .bool b => .bool b

def toJson (v : CellValue) : Json :=
  .record [("type", v.type.toJson), ("value", v.contentJson)]

/-- A value of the given type. -/
def ofContent? (t : ValueType) (content : Json) : Option CellValue :=
  match t with
  | .bytes => (Json.list? Json.byte? content).map .bytes
  | .utf8 => content.string?.map .utf8
  | .int32 => content.int32?.map .int32
  | .int64 => content.int64?.map .int64
  | .float64 => content.float?.map .float64
  | .bool => content.bool?.map .bool

/-- A record by name, whose type is any spelling of a choice, or the plain name of the type
followed by the content. -/
def ofJson? : Json → Option CellValue
  | .arr [.str name, content] => (ValueType.ofName? name).bind fun t => ofContent? t content
  | .obj fields => do
    let t ← Json.required? ValueType.ofJson? (SortedMap.lookup "type" fields)
    Json.required? (ofContent? t) (SortedMap.lookup "value" fields)
  | _ => none

end CellValue

end ColumnConnector
