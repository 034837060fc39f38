import RelationalStore.Table.Product

/-!
# Queries

A query forms the product of its tables from left to right, keeps the rows on which
its condition is true, and projects them to the columns asked for.
-/

namespace RelationalStore

/-- A table that a query reads, under an optional alias. -/
structure Source where
  name : String
  asName : Option String
  deriving DecidableEq, Repr

/-- The name by which the columns of a source are qualified: its alias, or else the
name of the table. -/
def Source.reference (s : Source) : String :=
  s.asName.getD s.name

/-- A column that a query asks for. -/
structure Projection where
  table : Option String
  column : String
  asName : Option String
  deriving DecidableEq, Repr

/-- The header of a result column: its alias, or else the name of the column. -/
def Projection.header (p : Projection) : String :=
  p.asName.getD p.column

namespace Query

/-- The product of the sources from left to right. -/
def productOf (sources : List (Table × Option String)) : Table :=
  sources.foldl (fun left source => left.product none source.1 source.2) Table.unit

/-- The position of a column that the query asks for. -/
def resolveProjection (schema : Schema) (p : Projection) : Except Error Nat :=
  match schema.resolve p.table p.column with
  | .ok position => .ok position
  | .error _ => .error (.selectColumn (columnReference p.table p.column))

/-- The values of a row at some positions. -/
def projectRow (positions : List Nat) (row : Row) : Except Failure Row :=
  positions.mapM fun position =>
    match row[position]? with
    | some v => .ok v
    | none => .error .noSuchCell

section Reading

/-! A query only reads. So it may be asked wherever tables can be read, in whatever way of
working that can fail. -/

variable {m : Type → Type} [Monad m] [MonadLiftT (Except Failure) m]

/-- Reads the sources in order. Each has to exist, and no alias may be given twice;
tables without an alias may be read several times. -/
def readSources (read : String → m (Option Table)) :
    List String → List Source → m (List (Table × Option String))
  | _, [] => return []
  | seen, s :: rest => do
    match ← read s.name with
    | none => Failure.lift (.error (.selectTable s.name))
    | some t =>
      match s.asName with
      | none => do
        let others ← readSources read seen rest
        return (t, none) :: others
      | some name =>
        if name ∈ seen then Failure.lift (.error (.duplicateAlias name))
        else do
          let others ← readSources read (name :: seen) rest
          return (t, some name) :: others

/-- The headers and the rows that a query gives once its tables have been read. Without a
projection it gives all columns of the product. -/
def answer (tables : List (Table × Option String)) (projection : Option (List Projection))
    (condition : Option Condition) : Except Failure (List String × List Row) := do
  let product := productOf tables
  let rows ← Failure.lift (product.search condition)
  match projection with
  | none => return (product.schema.map (·.name), rows)
  | some columns =>
    let positions ← Failure.lift (columns.mapM (resolveProjection product.schema))
    let projected ← rows.mapM (projectRow positions)
    return (columns.map (·.header), projected)

/-- The headers and the rows that a query gives. -/
def run (sources : List Source) (projection : Option (List Projection))
    (condition : Option Condition) (read : String → m (Option Table)) :
    m (List String × List Row) := do
  let tables ← readSources read [] sources
  answer tables projection condition

end Reading

end Query

end RelationalStore
