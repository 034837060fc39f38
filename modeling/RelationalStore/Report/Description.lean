import RelationalStore.Report.Grid
import RelationalStore.Schema.Attribute
import RelationalStore.Text.Blank

/-!
# The description of a table

A line for each column with its name, its type, whether it admits NULL and its mark
as a key, in columns of fixed width.
-/

namespace RelationalStore.Report

/-- The four columns of a description. -/
def descriptionLine (name type null key : String) : String :=
  Text.padEnd 30 name ++ Text.padEnd 20 type ++ Text.padEnd 10 null ++ Text.padEnd 10 key

/-- The line of one column, without white space at its end. -/
def attributeLine (a : Attribute) : String :=
  Text.trimEnd (descriptionLine a.name a.typeName (if a.nullable then "Y" else "N") a.keyMark)

/-- The description of a table. -/
def description (name : String) (schema : Schema) : String :=
  let rule := dashes 49
  "\n".intercalate
    ([s!"table_name [{name}]", rule, descriptionLine "column_name" "type" "null" "key"] ++
      schema.map attributeLine ++ [rule])

end RelationalStore.Report
