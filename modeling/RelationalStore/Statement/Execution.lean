import RelationalStore.Catalog.Access
import RelationalStore.Statement.Basic
import RelationalStore.Table.Deletion
import RelationalStore.Table.Insertion

/-!
# Executing statements

A statement reads the tables it needs, works out what changes, and stores the tables that have
changed. What it has stored before it fails is not taken back.
-/

namespace RelationalStore

variable {κ : Type} [Catalog κ]

namespace Access

/-- Takes a table's name out of the tables it references. Targets that are not stored
are passed over, and only those that change are stored again. -/
def leaveTargets (name : String) : List String → Access κ Unit
  | [] => return ()
  | target :: rest => do
    match ← load target with
    | none => leaveTargets name rest
    | some t =>
      if t.referencedBy.contains name then
        save (t.withoutReferrer name)
        leaveTargets name rest
      else leaveTargets name rest

/-- Prepares the removal of a table that no other table references. -/
def leave (t : Table) : Access κ Unit :=
  if t.referencedBy.keys.isEmpty then
    leaveTargets t.name (t.foreignKeys.map (·.table)).eraseDups
  else fail (.dropReferenced t.name)

end Access

namespace Statement

open Access

/-- What a statement does to a catalog, step by step. -/
def work : Statement → Access κ Outcome
  | createTable name columns constraints => do
    if ← has name then fail (.tableExists name)
    else
      let t ← define name columns constraints
      save t
      return .created name
  | dropTable name => do
    let t ← require name
    leave t
    remove name
    return .dropped name
  | describe name => do
    let t ← require name
    return .described name t.schema
  | showTables => do
    let found ← names
    return .listed found
  | insert table columns values => do
    let t ← require table
    let t' ← t.insert columns values load
    save t'
    return .inserted 1
  | delete table condition => do
    let t ← require table
    let (t', deletion) ← Access.delete t condition
    if !deletion.removed.isEmpty then save t'
    return .deleted deletion.removed.length deletion.blocked
  | select projection sources condition => do
    let (columns, rows) ← Query.run sources projection condition load
    return .selected columns rows

/-- Executes a statement. The second part is the catalog afterwards, also where the
statement fails. -/
def execute (catalog : κ) (s : Statement) : Except Failure Outcome × κ :=
  s.work catalog

end Statement

end RelationalStore
