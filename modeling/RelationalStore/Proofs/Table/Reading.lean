import RelationalStore.Proofs.Catalog.Access
import RelationalStore.Table.Definition
import RelationalStore.Table.Deletion
import RelationalStore.Table.Insertion
import RelationalStore.Table.Query

/-!
# What tables make of what they read

What work on a catalog comes to depends on nothing but the tables that it reads. An insertion and
a query are told in this way from the start, for any way of reading tables. A definition and a
deletion also store tables. What they do before is told here in the same way, loop by loop, and
it is shown that nothing is stored until all of it is done.
-/

namespace RelationalStore

namespace Table

/-- Adds a foreign key to the table. The targets that are already read are at hand,
and the one of this key is put behind the others. -/
def addForeignKey (t : Table) (targets : List Table) (columns : List String) (table : String)
    (references : List String) (read : TableReader) : Except Failure (Table × List Table) := do
  let (target, others) ←
    match takeNamed table targets with
    | some found => .ok found
    | none => do
      match ← read table with
      | some target => .ok (target, targets)
      | none => .error (.error (.referenceTable table))
  let t' ← Failure.lift (t.withForeignKey target columns references)
  return (t', others ++ [target])

/-- Adds the foreign keys among the constraints one by one. -/
def addForeignKeys (read : TableReader) :
    List TableConstraint → Table × List Table → Except Failure (Table × List Table)
  | [], state => .ok state
  | .primaryKey _ :: rest, state => addForeignKeys read rest state
  | .foreignKey columns table references :: rest, (t, targets) => do
    let state ← t.addForeignKey targets columns table references read
    addForeignKeys read rest state

/-- The table of a definition, without rows, and the tables it references, in which
it is entered. -/
def define (name : String) (columns : List ColumnDefinition)
    (constraints : List TableConstraint) (read : TableReader) :
    Except Failure (Table × List Table) := do
  let clauses := keyClauses columns constraints
  if 1 < clauses.length then .error (.error .duplicatePrimaryKey)
  else
    let withColumns ← Failure.lift ((blank name).addColumns columns)
    let withKey ← Failure.lift (withColumns.addKeyColumns clauses.flatten)
    let (t, targets) ← addForeignKeys read constraints (withKey, [])
    return (t, targets.map (·.withReferrer name))

/-- The tables of the given names that exist. -/
def readAll (read : TableReader) : List String → Except Failure (List Table)
  | [] => .ok []
  | name :: rest => do
    let t? ← read name
    let others ← readAll read rest
    return t?.toList ++ others

/-- The tables that are looked up for references to rows of this one. -/
def referrers (t : Table) (read : TableReader) : Except Failure (List Table) :=
  if t.primaryKey.isEmpty then .ok [] else readAll read t.referencedBy.keys

/-- Deletes the rows on which the condition is true, and gives the remaining table
with the account of the deletion. -/
def delete (t : Table) (condition : Option Condition) (read : TableReader) :
    Except Failure (Table × Deletion) := do
  let chosen ← Failure.lift (Condition.matching condition t.schema t.rows)
  let referrers ← t.referrers read
  let d ← chosen.foldlM (Deletion.decideRow t) ⟨referrers.map fun r => (r, false), [], 0⟩
  return (t.withoutRows d.removed, d)

end Table

namespace Access

variable {κ : Type} [Catalog κ]

/-- The step of the walk along the foreign keys of a definition reads. -/
theorem reads_addForeignKey (t : Table) (targets : List Table) (columns : List String)
    (table : String) (references : List String) :
    Reads (addForeignKey t targets columns table references : Access κ _) fun c =>
      t.addForeignKey targets columns table references (Catalog.load c) := by
  simp only [addForeignKey, Table.addForeignKey]
  cases Table.takeNamed table targets with
  | some found => exact (reads_pure found).bind fun _ => (reads_lift _).bind fun _ => reads_pure _
  | none =>
    refine (reads_load table).bind fun t? => ?_
    cases t? with
    | some target => exact (reads_pure _).bind fun _ => (reads_lift _).bind fun _ => reads_pure _
    | none => exact (reads_fail _).bind fun _ => (reads_lift _).bind fun _ => reads_pure _

/-- A definition reads while it goes through its foreign keys. -/
theorem reads_addForeignKeys (constraints : List TableConstraint) (state : Table × List Table) :
    Reads (addForeignKeys constraints state : Access κ _) fun c =>
      Table.addForeignKeys (Catalog.load c) constraints state := by
  induction constraints generalizing state with
  | nil => exact reads_pure state
  | cons constraint rest ih =>
    cases constraint with
    | primaryKey columns => exact ih state
    | foreignKey columns table references =>
      exact (reads_addForeignKey state.1 state.2 columns table references).bind ih

/-- A definition reads all that it needs before it stores the tables that it references. -/
theorem define_eq (name : String) (columns : List ColumnDefinition)
    (constraints : List TableConstraint) (c : κ) :
    define name columns constraints c =
      commit c (Table.define name columns constraints (Catalog.load c)) fun (t, targets) =>
        (t, Catalog.saveAll c targets) := by
  rw [define, Table.define]
  dsimp only
  split
  · rfl
  · refine (reads_lift _).bind_eq_commit fun withColumns => ?_
    refine (reads_lift _).bind_eq_commit fun withKey => ?_
    refine (reads_addForeignKeys constraints (withKey, [])).bind_eq_commit fun state => ?_
    exact bind_of_ok (saveAll_eq _ c)

/-- To read several tables reads. -/
theorem reads_readAll (names : List String) :
    Reads (readAll names : Access κ _) fun c => Table.readAll (Catalog.load c) names := by
  induction names with
  | nil => exact reads_pure []
  | cons name rest ih => exact (reads_load name).bind fun t? => ih.bind fun others => reads_pure _

/-- To look up the referencing tables reads. -/
theorem reads_referrers (t : Table) :
    Reads (referrers t : Access κ _) fun c => t.referrers (Catalog.load c) := by
  unfold referrers Table.referrers
  cases t.primaryKey.isEmpty with
  | true => exact reads_pure []
  | false => exact reads_readAll t.referencedBy.keys

/-- A deletion decides about all of its rows before it stores the referencing tables. -/
theorem delete_eq (t : Table) (condition : Option Condition) (c : κ) :
    delete t condition c =
      commit c (t.delete condition (Catalog.load c)) fun (t', d) =>
        ((t', d), Catalog.saveAll c d.changed) := by
  refine (reads_lift _).bind_eq_commit fun chosen => ?_
  refine (reads_referrers t).bind_eq_commit fun referrers => ?_
  have hdecide := Reads.foldlM (fun d entry => reads_result (κ := κ) (Deletion.decideRow t d entry))
    chosen ⟨referrers.map fun r => (r, false), [], 0⟩
  exact hdecide.bind_eq_commit fun d => bind_of_ok (saveAll_eq d.changed c)

/-- The walk along the foreign keys of a row reads. -/
theorem reads_checkTargets (t : Table) (row : Row) (fks : List ForeignKey) :
    Reads (t.checkTargets row load fks : Access κ _) fun c =>
      t.checkTargets row (Catalog.load c) fks := by
  induction fks with
  | nil => exact reads_pure ()
  | cons fk rest ih =>
    refine (reads_load fk.table).bind fun target? => ?_
    cases target? with
    | none => exact reads_result _
    | some target => exact (reads_result _).bind fun _ => ih

/-- The check of the foreign keys of a row reads. -/
theorem reads_checkForeignKeys (t : Table) (row : Row) :
    Reads (t.checkForeignKeys row load : Access κ _) fun c =>
      t.checkForeignKeys row (Catalog.load c) := by
  refine (reads_result _).bind fun waived => ?_
  cases waived with
  | true => exact reads_pure ()
  | false => exact reads_checkTargets t row t.foreignKeys

/-- An insertion reads all that it needs, and the table that it makes is stored later. -/
theorem reads_insert (t : Table) (columns : Option (List String)) (values : List Value) :
    Reads (t.insert columns values load : Access κ _) fun c =>
      t.insert columns values (Catalog.load c) :=
  (reads_result _).bind fun row => (reads_result _).bind fun _ =>
    (reads_checkForeignKeys t row).bind fun _ => reads_pure _

/-- The walk along the sources of a query reads. -/
theorem reads_readSources (seen : List String) (sources : List Source) :
    Reads (Query.readSources load seen sources : Access κ _) fun c =>
      Query.readSources (Catalog.load c) seen sources := by
  induction sources generalizing seen with
  | nil => exact reads_pure []
  | cons s rest ih =>
    refine (reads_load s.name).bind fun t? => ?_
    cases t? with
    | none => exact reads_result _
    | some t =>
      simp only
      cases s.asName with
      | none => exact (ih seen).bind fun others => reads_pure _
      | some name =>
        simp only
        split
        · exact reads_result _
        · exact (ih (name :: seen)).bind fun others => reads_pure _

/-- A query reads. -/
theorem reads_run (sources : List Source) (projection : Option (List Projection))
    (condition : Option Condition) :
    Reads (Query.run sources projection condition load : Access κ _) fun c =>
      Query.run sources projection condition (Catalog.load c) :=
  (reads_readSources [] sources).bind fun _ => reads_result _

end Access

end RelationalStore
