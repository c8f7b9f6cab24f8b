import ColumnConnector.Mapping.Body
import ColumnConnector.Mapping.Headers
import ColumnConnector.Text.Quoted

/-!
# Choosing a strategy

A message chooses a registered strategy by its class name, or else one of the two built in by
name; the header strategy is taken when it says nothing.
-/

namespace ColumnConnector

/-- Strategies registered under class names. -/
structure Registry where
  registered : SortedMap String Strategy := ∅

namespace Registry

def register (r : Registry) (className : String) (s : Strategy) : Registry :=
  ⟨r.registered.insert className s⟩

def builtIn : StrategyName → Strategy
  | .header => HeaderMapping.strategy
  | .body => BodyMapping.strategy

/-- The strategy that a message chooses. -/
def choose (r : Registry) (m : Message) : Except ConnectorError Strategy :=
  match m.headerText Header.strategyClass with
  | some className =>
    match r.registered.get? className with
    | some s => .ok s
    | none => .error (.configuration (.unknownStrategyClass className))
  | none =>
    match m.headerText Header.strategy with
    | none => .ok HeaderMapping.strategy
    | some name =>
      match StrategyName.read name with
      | .ok n => .ok (builtIn n)
      | .error fault => .error (.configuration fault)

/-- A short description: the registered names in order. -/
def describe (r : Registry) : String :=
  "CellMappingStrategyFactory \x7b registered: [" ++
    String.intercalate ", " (r.registered.keys.map Text.quoted) ++ "], .. \x7d"

end Registry

end ColumnConnector
