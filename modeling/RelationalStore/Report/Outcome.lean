import RelationalStore.Report.Description
import RelationalStore.Report.Json
import RelationalStore.Statement.Basic

/-!
# Reports of outcomes

What a statement reports, as text and as structured text.
-/

namespace RelationalStore

/-- An outcome as text. -/
def Outcome.text : Outcome → String
  | created name => s!"'{name}' table is created"
  | dropped name => s!"'{name}' table is dropped"
  | inserted count => s!"{count} row(s) inserted"
  | deleted count blocked =>
    s!"{count} row(s) deleted" ++
      if blocked = 0 then ""
      else s!"\n{blocked} row(s) are not deleted due to referential integrity"
  | selected columns rows => Report.grid columns rows
  | described name columns => Report.description name columns
  | listed [] => "there is no table"
  | listed tables =>
    let rule := Report.dashes 24
    rule ++ "\n" ++ "\n".intercalate tables ++ "\n" ++ rule

namespace Report

/-- A list of texts. -/
def jsonTexts (texts : List String) : Json :=
  .list (texts.map .text)

/-- A value as structured text. -/
def jsonValue : Value → Json
  | .null => .text "Null"
  | .integer n => .object [("Integer", .number n.toInt)]
  | .char s => .object [("Char", .text s)]
  | .date d =>
    .object [("Date", .object
      [("year", .number d.year.toNat), ("month", .number d.month.toNat),
        ("day", .number d.day.toNat)])]

/-- The name of a type. -/
def typeLabel : DataType → String
  | .integer => "Integer"
  | .char => "Char"
  | .date => "Date"

/-- A column as structured text. -/
def jsonAttribute (a : Attribute) : Json :=
  .object
    [("name", .text a.name), ("table", .text a.table),
      ("data_type", .text (typeLabel a.dataType)),
      ("char_length", .number a.charLength.toNat), ("nullable", .bool a.nullable),
      ("primary", .bool a.primary),
      ("references",
        match a.references with
        | some (table, column) => jsonTexts [table, column]
        | none => .null)]

end Report

/-- An outcome as structured text. -/
def Outcome.json : Outcome → Json
  | created name => .object [("CreateTable", .object [("name", .text name)])]
  | dropped name => .object [("DropTable", .object [("name", .text name)])]
  | inserted count => .object [("Insert", .object [("count", .number count)])]
  | deleted count blocked =>
    .object [("Delete", .object [("deleted", .number count), ("blocked", .number blocked)])]
  | selected columns rows =>
    .object [("Select", .object
      [("columns", Report.jsonTexts columns),
        ("rows", .list (rows.map fun row => .list (row.map Report.jsonValue)))])]
  | described name columns =>
    .object [("Describe", .object
      [("name", .text name), ("columns", .list (columns.map Report.jsonAttribute))])]
  | listed tables => .object [("ShowTables", .object [("tables", Report.jsonTexts tables)])]

end RelationalStore
