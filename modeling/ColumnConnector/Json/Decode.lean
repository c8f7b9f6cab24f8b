import ColumnConnector.Json.Basic

/-!
# Reading records from JSON

A record is given by name, as an object in which unknown fields are passed over, or by position,
as an array that may end early.  Either way the result tells for each declared field what was
given for it; the reader of the record decides what an absent field means.

A choice without content is its name, or an object whose only field has that name and is null.
-/

namespace ColumnConnector.Json

/-- What is given for each of the declared fields. -/
def fields? (names : List String) : Json → Option (List (Option Json))
  | .obj fields => some (names.map fun name => SortedMap.lookup name fields)
  | .arr items =>
    if items.length ≤ names.length then
      some (items.map some ++ List.replicate (names.length - items.length) none)
    else none
  | _ => none

/-- A field that may be absent or null. -/
def optional? {α : Type} (read : Json → Option α) : Option Json → Option (Option α)
  | none => some none
  | some .null => some none
  | some j => (read j).map some

/-- A field that takes a default when it is absent. -/
def defaulted? {α : Type} (standard : α) (read : Json → Option α) : Option Json → Option α
  | none => some standard
  | some j => read j

/-- A field that must be there. -/
def required? {α : Type} (read : Json → Option α) (given : Option Json) : Option α :=
  given.bind read

/-- The items of an array, each read in the same way. -/
def list? {α : Type} (read : Json → Option α) : Json → Option (List α)
  | .arr items => items.mapM read
  | _ => none

/-- The fields of an object, each value read in the same way. -/
def map? {α : Type} (read : Json → Option α) : Json → Option (SortedMap String α)
  | .obj fields =>
    (fields.mapM fun field => (read field.2).map fun value => (field.1, value)).map SortedMap.ofList
  | _ => none

def string? : Json → Option String
  | .str s => some s
  | _ => none

def bool? : Json → Option Bool
  | .bool b => some b
  | _ => none

/-- A whole number of the range. -/
def intWithin? (low high : Int) : Json → Option Int
  | .int n => if low ≤ n ∧ n ≤ high then some n else none
  | _ => none

def int32? (j : Json) : Option Int32 := (j.intWithin? (-2147483648) 2147483647).map Int32.ofInt

def int64? (j : Json) : Option Int64 :=
  (j.intWithin? (-9223372036854775808) 9223372036854775807).map Int64.ofInt

def count? (j : Json) : Option UInt64 :=
  (j.intWithin? 0 18446744073709551615).map fun n => UInt64.ofNat n.toNat

def byte? (j : Json) : Option UInt8 := (j.intWithin? 0 255).map fun n => UInt8.ofNat n.toNat

/-- A number as a double, a whole number being rounded. -/
def float? : Json → Option Binary64
  | .int n => some (Binary64.ofInt n)
  | .float x => some x
  | _ => none

/-- The name that a choice without content gives. -/
def choiceName? : Json → Option String
  | .str s => some s
  | .obj [(name, .null)] => some name
  | _ => none

end ColumnConnector.Json
