import ColumnConnector.Numeral.Decimal

/-!
# Header names

The headers that control an invocation and those that carry the entries of a batch.  Entries are
numbered from one, and the headers of every entry but the first end in its number.
-/

namespace ColumnConnector.Header

def operation : String := "CamelHBaseOperation"

def maxScanResults : String := "CamelHBaseMaxScanResults"

def startRow : String := "CamelHBaseStartRow"

def strategy : String := "CamelMappingStrategy"

def strategyClass : String := "CamelMappingStrategyClassName"

def rowId : String := "CamelHBaseRowId"

def rowType : String := "CamelHBaseRowType"

def family : String := "CamelHBaseFamily"

def qualifier : String := "CamelHBaseQualifier"

def value : String := "CamelHBaseValue"

def valueType : String := "CamelHBaseValueType"

/-- The headers that an endpoint fills in. -/
def defaulted : List String := [operation, maxScanResults, strategy, strategyClass]

/-- The headers of an entry. -/
def ofEntry : List String := [rowId, rowType, family, qualifier, value, valueType]

/-- The name of an entry's part: unmarked for the first entry, numbered for the others. -/
def numbered (name : String) (index : Nat) : String :=
  if index ≤ 1 then name else name ++ Decimal.ofNat index

end ColumnConnector.Header
