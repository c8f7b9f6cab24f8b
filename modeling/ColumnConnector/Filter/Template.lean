import ColumnConnector.Filter.Basic
import ColumnConnector.Row.Basic
import ColumnConnector.Value.Codec

/-!
# Filter templates

An endpoint is given filter templates, and each scan binds them anew to the row it scans by.
Only templates that look at the row are forwarded; a fixed filter is kept with the endpoint and
takes no part in a scan.

`columnMatching` asks of every column for which the row has a value that the newest stored value
is the stored form of that value.
-/

namespace ColumnConnector

/-- What stands in an endpoint for the filter of a scan. -/
inductive FilterTemplate where
  | fixed (filter : Filter)
  | modelAware (bind : Row → Except ConversionError Filter)

namespace FilterTemplate

/-- The binding of a template that looks at the row. -/
def binding? : FilterTemplate → Option (Row → Except ConversionError Filter)
  | .fixed _ => none
  | .modelAware bind => some bind

/-- The filter of a scan by `row`: all bindings together, the first failure winning. -/
def bindAll (templates : List FilterTemplate) (row : Row) :
    Except ConversionError (Option Filter) :=
  if templates.isEmpty then .ok none
  else (fun filters => some (.all filters)) <$>
    (templates.filterMap binding?).mapM fun bind => bind row

/-- The test of one cell of the row, if it names a column and has a value. -/
def cellTest? (c : Cell) : Option Filter :=
  match c.column?, c.value with
  | some (family, qualifier), some v =>
    some (.columnValue (Utf8.encode family) (Utf8.encode qualifier) .equal v.encode)
  | _, _ => none

/-- Every valued column of the row must hold that value. -/
def columnMatching : FilterTemplate :=
  .modelAware fun row => .ok (.all (row.cells.filterMap cellTest?))

end FilterTemplate

end ColumnConnector
