import ColumnConnector.Numeral.Binary64
import ColumnConnector.SortedMap

/-!
# JSON values

Headers and bodies are JSON values.  Whole numbers and numbers with a fraction are kept apart,
and the fields of an object stand in ascending order of their names.
-/

namespace ColumnConnector

/-- A JSON value. -/
inductive Json where
  | null
  | bool (b : Bool)
  | int (n : Int)
  | float (x : Binary64)
  | str (s : String)
  | arr (items : List Json)
  | obj (fields : List (String × Json))
deriving Inhabited

namespace Json

def isNull : Json → Bool
  | .null => true
  | _ => false

/-- A double as a JSON number; what has no number is null. -/
def ofFloat (x : Binary64) : Json := if x.isFinite then .float x else .null

/-- An object with the entries of a map. -/
def ofMap (m : SortedMap String Json) : Json := .obj m.entries

/-- An object with the given fields, brought into order. -/
def record (fields : List (String × Json)) : Json := ofMap (SortedMap.ofList fields)

/-- A field that is left out when there is nothing to write. -/
def optionalField (name : String) : Option Json → List (String × Json)
  | none => []
  | some j => [(name, j)]

end Json

end ColumnConnector
