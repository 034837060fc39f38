import RelationalStore.Collection.SortedMap
import RelationalStore.Schema.Attribute

/-!
# Tables

A table holds its columns, its rows and its keys, and it also lists the tables whose
foreign keys point at it. It is stored and loaded as one unit.
-/

namespace RelationalStore

/-- A table, or a product of tables, which has no name. -/
structure Table where
  name : String
  /-- The columns, which lay out every row. -/
  schema : Schema
  rows : List Row
  /-- The columns of the primary key in the order of their definition; none if the
  table has no primary key. -/
  primaryKey : List String
  foreignKeys : List ForeignKey
  /-- The tables that have a foreign key to this one. -/
  referencedBy : NameSet
  deriving DecidableEq, Repr

/-- Column names with their values in one row. -/
abbrev Cells := List (String × Value)

namespace Table

/-- A table of the given name without columns or rows. -/
def blank (name : String) : Table where
  name := name
  schema := []
  rows := []
  primaryKey := []
  foreignKeys := []
  referencedBy := SortedMap.empty

/-- The column of the given name. -/
def attribute? (t : Table) (name : String) : Option Attribute :=
  t.schema.find? (·.name == name)

/-- Changes the column of the given name, the first one if there are several. -/
def modifyAttribute (t : Table) (name : String) (change : Attribute → Attribute) : Table :=
  { t with schema := go t.schema }
where
  /-- Changes the first column of the name in a list of columns. -/
  go : Schema → Schema
    | [] => []
    | a :: rest => if a.name == name then change a :: rest else a :: go rest

/-- The position of the column of the given name. -/
def columnIndex (t : Table) (name : String) : Except Error Nat :=
  match t.schema.findIdx? (·.name == name) with
  | some position => .ok position
  | none => .error (.invalidData s!"table {t.name} has no column {name}")

/-- The value of one column in a row. -/
def cell (t : Table) (row : Row) (column : String) : Except Error (String × Value) := do
  let position ← t.columnIndex column
  match row[position]? with
  | some v => .ok (column, v)
  | none => .error (.invalidData s!"row of {t.name} is shorter than its schema")

/-- The values of some columns in a row, in the order in which the columns are given. -/
def cells (t : Table) (row : Row) (columns : List String) : Except Error Cells :=
  columns.mapM (t.cell row)

end Table

/-- How a table is read from wherever it is kept; none if no table of the name is
kept there. -/
abbrev TableReader := String → Except Failure (Option Table)

end RelationalStore
