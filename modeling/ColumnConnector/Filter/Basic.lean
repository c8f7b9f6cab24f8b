import ColumnConnector.Store.KeyValue

/-!
# Row filters

A filter decides whether a scan returns a row, from the row's key and the cells read of it.  A
column test compares the newest value of a column with an operand, byte by byte; the list forms
combine any number of filters, and an empty list accepts every row.
-/

namespace ColumnConnector

/-- A comparison of a stored value with an operand. -/
inductive CompareOp where
  | less
  | lessOrEqual
  | equal
  | notEqual
  | greaterOrEqual
  | greater
deriving DecidableEq, Repr

namespace CompareOp

def all : List CompareOp := [.less, .lessOrEqual, .equal, .notEqual, .greaterOrEqual, .greater]

def symbol : CompareOp → String
  | .less => "<"
  | .lessOrEqual => "<="
  | .equal => "="
  | .notEqual => "!="
  | .greaterOrEqual => ">="
  | .greater => ">"

/-- Does the comparison hold of values in this order? -/
def accepts : CompareOp → Ordering → Bool
  | .less, o => o = .lt
  | .lessOrEqual, o => o ≠ .gt
  | .equal, o => o = .eq
  | .notEqual, o => o ≠ .eq
  | .greaterOrEqual, o => o ≠ .lt
  | .greater, o => o = .gt

end CompareOp

/-- A test on one row. -/
inductive Filter where
  /-- Compare the newest value of a column; a row without the column passes unless it is
  `required`. -/
  | column (family qualifier : Bytes) (op : CompareOp) (operand : Bytes) (required : Bool)
  | keyStart (start : Bytes)
  | all (filters : List Filter)
  | any (filters : List Filter)
deriving Inhabited

namespace Filter

/-- A column test on names, which a row without the column passes. -/
def columnValue (family qualifier : Bytes) (op : CompareOp) (operand : Bytes) : Filter :=
  .column family qualifier op operand false

mutual

/-- Does the row with this key and these cells pass? -/
def accepts (key : Bytes) (cells : List KeyValue) : Filter → Bool
  | .column family qualifier op operand required =>
    match KeyValue.latest (cells.filter (·.isOf family qualifier)) with
    | some kv => op.accepts (compare kv.value operand)
    | none => !required
  | .keyStart start => start.isPrefixOf key
  | .all filters => acceptsAll key cells filters
  | .any [] => true
  | .any filters => acceptsAny key cells filters

def acceptsAll (key : Bytes) (cells : List KeyValue) : List Filter → Bool
  | [] => true
  | f :: rest => accepts key cells f && acceptsAll key cells rest

def acceptsAny (key : Bytes) (cells : List KeyValue) : List Filter → Bool
  | [] => false
  | f :: rest => accepts key cells f || acceptsAny key cells rest

end

theorem acceptsAll_eq_all (key : Bytes) (cells : List KeyValue) (filters : List Filter) :
    acceptsAll key cells filters = filters.all (accepts key cells) := by
  induction filters with
  | nil => rfl
  | cons f rest ih => rw [acceptsAll, ih, List.all_cons]

theorem acceptsAny_eq_any (key : Bytes) (cells : List KeyValue) (filters : List Filter) :
    acceptsAny key cells filters = filters.any (accepts key cells) := by
  induction filters with
  | nil => rfl
  | cons f rest ih => rw [acceptsAny, ih, List.any_cons]

end Filter

end ColumnConnector
