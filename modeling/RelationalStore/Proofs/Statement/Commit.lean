import RelationalStore.Proofs.Table.Reading
import RelationalStore.Statement.Execution

/-!
# Statements in two parts

The work of a statement comes down to two parts, but for the drop of a table. In the first part
all is read and checked, and the second part stores what has come of it. Written in this way a
statement is easy to reason about. Here it is shown that executing it does come to the same.
-/

namespace RelationalStore

variable {κ : Type} [Catalog κ]

/-- The walk along the targets of a table that is dropped, target by target. -/
theorem Access.leaveTargets_cons (name target : String) (rest : List String) (c : κ) :
    leaveTargets name (target :: rest) c =
      match Catalog.load c target with
      | .error f => (.error f, c)
      | .ok none => leaveTargets name rest c
      | .ok (some t) =>
        if t.referencedBy.contains name then
          leaveTargets name rest (Catalog.save c (t.withoutReferrer name))
        else leaveTargets name rest c := by
  cases hload : Catalog.load c target with
  | error f => exact bind_of_error ((reads_load target).apply_eq hload)
  | ok t? =>
    refine (bind_of_ok ((reads_load target).apply_eq hload)).trans ?_
    cases t? with
    | none => rfl
    | some t => cases hlisted : t.referencedBy.contains name <;> simp only [hlisted] <;> rfl

open Access

namespace Statement

/-- Stores the table of a definition and the tables it references. -/
def executeCreate (catalog : κ) (name : String) (columns : List ColumnDefinition)
    (constraints : List TableConstraint) : Except Failure Outcome × κ :=
  if Catalog.has catalog name then (.error (.error (.tableExists name)), catalog)
  else
    let defined := Table.define name columns constraints (Catalog.load catalog)
    commit catalog defined fun (t, targets) =>
      (.created name, Catalog.save (Catalog.saveAll catalog targets) t)

/-- Removes a table that no other table references. -/
def executeDrop (catalog : κ) (name : String) : Except Failure Outcome × κ :=
  match Catalog.require catalog name with
  | .error f => (.error f, catalog)
  | .ok t =>
    if t.referencedBy.keys.isEmpty then
      match leaveTargets t.name (t.foreignKeys.map (·.table)).eraseDups catalog with
      | (.error f, left) => (.error f, left)
      | (.ok (), left) => (.ok (.dropped name), Catalog.remove left name)
    else (.error (.error (.dropReferenced t.name)), catalog)

/-- Adds a row to a table. -/
def executeInsert (catalog : κ) (table : String) (columns : Option (List String))
    (values : List Value) : Except Failure Outcome × κ :=
  commit catalog
    (do let t ← Catalog.require catalog table
        t.insert columns values (Catalog.load catalog))
    fun t => (.inserted 1, Catalog.save catalog t)

/-- Deletes rows from a table and stores it if a row is gone. -/
def executeDelete (catalog : κ) (table : String) (condition : Option Condition) :
    Except Failure Outcome × κ :=
  commit catalog
    (do let t ← Catalog.require catalog table
        t.delete condition (Catalog.load catalog))
    fun (t, deletion) =>
      let cascaded := Catalog.saveAll catalog deletion.changed
      (.deleted deletion.removed.length deletion.blocked,
        if deletion.removed.isEmpty then cascaded else Catalog.save cascaded t)

variable {c : κ}

/-- The definition of a table stores nothing before all of it has been checked. -/
theorem execute_createTable (name : String) (columns : List ColumnDefinition)
    (constraints : List TableConstraint) :
    (createTable name columns constraints).execute c =
      executeCreate c name columns constraints := by
  rw [executeCreate]
  refine (bind_of_ok (reads_has name c)).trans ?_
  split
  · rfl
  · exact bind_eq_commit (define_eq name columns constraints c) fun _ => rfl

/-- The drop of a table takes it out of its targets one by one before it is removed. -/
theorem execute_dropTable (name : String) :
    (dropTable name).execute c = executeDrop c name := by
  rw [executeDrop]
  cases hrequire : Catalog.require c name with
  | error f => exact bind_of_error ((reads_require name).apply_eq hrequire)
  | ok t =>
    refine (bind_of_ok ((reads_require name).apply_eq hrequire)).trans ?_
    dsimp only
    by_cases hunlisted : t.referencedBy.keys.isEmpty = true
    · rw [if_pos hunlisted]
      have hleave : leave t c = leaveTargets t.name (t.foreignKeys.map (·.table)).eraseDups c := by
        rw [leave, if_pos hunlisted]
      rcases hwalk : leaveTargets t.name (t.foreignKeys.map (·.table)).eraseDups c with
        ⟨f | ⟨⟩, left⟩
      · rw [hwalk]
        exact bind_of_error (hleave.trans hwalk)
      · rw [hwalk]
        exact bind_of_ok (hleave.trans hwalk)
    · rw [if_neg hunlisted]
      refine bind_of_error ?_
      rw [leave, if_neg hunlisted]
      rfl

/-- A description only reads. -/
theorem execute_describe (name : String) :
    (describe name).execute c =
      ((Catalog.require c name).map fun t => .described name t.schema, c) :=
  (reads_require name).map _ c

/-- A list of the tables only reads. -/
theorem execute_showTables : showTables.execute c = ((Catalog.names c).map .listed, c) :=
  reads_names.map _ c

/-- An insertion stores nothing before all of it has been checked. -/
theorem execute_insert (table : String) (columns : Option (List String)) (values : List Value) :
    (insert table columns values).execute c = executeInsert c table columns values := by
  refine (reads_require table).bind_eq_commit fun t => ?_
  exact (reads_insert t columns values).eq_commit fun t' => rfl

/-- A deletion stores nothing before all of its rows have been decided about. -/
theorem execute_delete (table : String) (condition : Option Condition) :
    (delete table condition).execute c = executeDelete c table condition := by
  refine (reads_require table).bind_eq_commit fun t => ?_
  refine bind_eq_commit (delete_eq t condition c) fun result => ?_
  dsimp only
  cases result.2.removed.isEmpty with
  | true => rfl
  | false => rfl

/-- A query only reads. -/
theorem execute_select (projection : Option (List Projection)) (sources : List Source)
    (condition : Option Condition) :
    (select projection sources condition).execute c =
      ((Query.run sources projection condition (Catalog.load c)).map fun answer =>
        .selected answer.1 answer.2, c) :=
  (reads_run sources projection condition).map _ c

end Statement

end RelationalStore
