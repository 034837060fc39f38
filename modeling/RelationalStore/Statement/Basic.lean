import RelationalStore.Table.Definition
import RelationalStore.Table.Query

/-!
# Statements and their outcomes

A statement is what the store is asked to do. Its names and types are checked only
when it is executed.
-/

namespace RelationalStore

/-- A request to the store. -/
inductive Statement where
  | createTable (name : String) (columns : List ColumnDefinition)
      (constraints : List TableConstraint)
  | dropTable (name : String)
  | describe (name : String)
  | showTables
  /-- Without columns the values fill the row in the order of the schema. -/
  | insert (table : String) (columns : Option (List String)) (values : List Value)
  /-- Without a condition all rows are deleted. -/
  | delete (table : String) (condition : Option Condition)
  /-- Without a projection all columns are given. -/
  | select (projection : Option (List Projection)) (sources : List Source)
      (condition : Option Condition)
  deriving DecidableEq, Repr

/-- What a statement that succeeds reports. -/
inductive Outcome where
  | created (name : String)
  | dropped (name : String)
  | inserted (count : Nat)
  | deleted (deleted blocked : Nat)
  | selected (columns : List String) (rows : List Row)
  | described (name : String) (columns : Schema)
  | listed (tables : List String)
  deriving DecidableEq, Repr

end RelationalStore
