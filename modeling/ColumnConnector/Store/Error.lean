/-!
# Store errors

What can go wrong between a client and a store.
-/

namespace ColumnConnector

/-- A failed request to a store. -/
inductive StoreError where
  | connection (text : String)
  | tableNotFound (table : String)
  | request (text : String)
  | pool (text : String)
deriving DecidableEq, Repr

namespace StoreError

def message : StoreError → String
  | .connection text => "connection failed: " ++ text
  | .tableNotFound table => "table not found: " ++ table
  | .request text => "request failed: " ++ text
  | .pool text => "pool: " ++ text

end StoreError

end ColumnConnector
