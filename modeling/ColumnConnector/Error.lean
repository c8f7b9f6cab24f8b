import ColumnConnector.Store.Error
import ColumnConnector.Value.Basic

/-!
# Connector errors

Why an exchange was not processed, or a configuration not accepted.
-/

namespace ColumnConnector

/-- What is wrong with a setting or with a header that overrides one. -/
inductive ConfigurationFault where
  | unknownOperation (name : String)
  | unknownStrategy (name : String)
  | unknownStrategyClass (name : String)
  | invalidValue (key reason : String)
  | emptyPool
  /-- A numbered column names a family or a qualifier only. -/
  | incompleteColumn (index : Nat)
deriving DecidableEq, Repr

namespace ConfigurationFault

def message : ConfigurationFault → String
  | .unknownOperation name => "unknown HBase operation: '" ++ name ++ "'"
  | .unknownStrategy name => "unknown mapping strategy: '" ++ name ++ "'"
  | .unknownStrategyClass name => "unknown mapping strategy class: '" ++ name ++ "'"
  | .invalidValue key reason => "invalid " ++ key ++ ": " ++ reason
  | .emptyPool => "pool.max.size must be at least 1"
  | .incompleteColumn index =>
    "row model cell " ++ Decimal.ofNat index ++ " needs both family and qualifier"

end ConfigurationFault

/-- A failed invocation of the connector. -/
inductive ConnectorError where
  | missingField (field : String)
  | missingConfig (key : String)
  | configuration (fault : ConfigurationFault)
  | conversion (e : ConversionError)
  | store (e : StoreError)
  /-- JSON that does not have the expected form. -/
  | malformed
deriving DecidableEq, Repr

namespace ConnectorError

/-- The text of an error.  What is wrong with malformed JSON is for the JSON library to say, in the
words of `reason`. -/
def message (e : ConnectorError) (reason : String := "") : String :=
  match e with
  | .missingField field => field ++ " must be specified"
  | .missingConfig key => "missing config: " ++ key
  | .configuration fault => "configuration error: " ++ fault.message
  | .conversion e => "conversion error: " ++ e.message
  | .store e => "store error: " ++ e.message
  | .malformed => "serde error: " ++ reason

end ConnectorError

end ColumnConnector
