import RelationalStore.Condition.Basic
import RelationalStore.Table.Basic

/-!
# Products of tables

The product of two tables has the columns of both and a row for each pair of rows.
The left table is the outer one. The columns are qualified by the name under which
their table is read, and a product keeps the qualifiers it already has.
-/

namespace RelationalStore

namespace Table

/-- The neutral table: no columns and one row without values. -/
def unit : Table :=
  { blank "" with rows := [[]] }

/-- The name that qualifies the columns of a table in a product: an alias, or else
the table's own name, which a product does not have. -/
def qualifier? (t : Table) (asName : Option String) : Option String :=
  match asName with
  | some name => some name
  | none => if t.name = "" then none else some t.name

/-- The columns of a table as it is read under an alias. -/
def qualifiedSchema (t : Table) (asName : Option String) : Schema :=
  match t.qualifier? asName with
  | some name => t.schema.map fun a => { a with table := name }
  | none => t.schema

/-- The product of two tables, each read under an optional alias. -/
def product (left : Table) (leftAlias : Option String) (right : Table)
    (rightAlias : Option String) : Table :=
  { blank "" with
    schema := left.qualifiedSchema leftAlias ++ right.qualifiedSchema rightAlias
    rows := left.rows.flatMap fun l => right.rows.map fun r => l ++ r }

/-- The rows on which a condition is true, in order. -/
def search (t : Table) (condition : Option Condition) : Except Error (List Row) := do
  let entries ← Condition.matching condition t.schema t.rows
  return entries.map Prod.fst

end Table

end RelationalStore
