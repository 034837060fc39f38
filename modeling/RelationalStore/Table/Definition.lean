import RelationalStore.Catalog.Access

/-!
# Defining a table

A definition lists columns and constraints. It is checked in this order: there is at
most one primary key clause, the columns are well defined, the key columns exist,
and each foreign key fits its target. Only a definition that passes every check
makes a table and enters its name in the tables it references.
-/

namespace RelationalStore

/-- The definition of one column. -/
structure ColumnDefinition where
  name : String
  dataType : DataType
  /-- The length of a text as it is written; it has to be positive. -/
  charLength : Int64
  nullable : Bool
  /-- Whether the column alone is the primary key. -/
  primaryKey : Bool
  deriving DecidableEq, Repr

namespace ColumnDefinition

/-- A column that admits NULL and belongs to no key. -/
def plain (name : String) (dataType : DataType) : ColumnDefinition where
  name := name
  dataType := dataType
  charLength := 0
  nullable := true
  primaryKey := false

/-- A plain column of texts of the given length. -/
def ofChars (name : String) (length : Int64) : ColumnDefinition :=
  { plain name .char with charLength := length }

/-- The column without NULL. -/
def notNull (c : ColumnDefinition) : ColumnDefinition :=
  { c with nullable := false }

/-- The column as the primary key. -/
def asPrimaryKey (c : ColumnDefinition) : ColumnDefinition :=
  { c with primaryKey := true }

end ColumnDefinition

/-- A constraint on a whole table. -/
inductive TableConstraint where
  /-- The columns together are the primary key. -/
  | primaryKey (columns : List String)
  /-- The columns reference the primary key of another table. -/
  | foreignKey (columns : List String) (table : String) (references : List String)
  deriving DecidableEq, Repr

namespace Table

/-- The primary key clauses of a definition, those of single columns first. -/
def keyClauses (columns : List ColumnDefinition) (constraints : List TableConstraint) :
    List (List String) :=
  (columns.filter (·.primaryKey)).map (fun c => [c.name]) ++
    constraints.filterMap fun
      | .primaryKey names => some names
      | .foreignKey .. => none

/-- Adds the columns of a definition one by one. -/
def addColumns (t : Table) : List ColumnDefinition → Except Error Table
  | [] => .ok t
  | c :: rest =>
    if (t.attribute? c.name).isSome then .error (.duplicateColumn c.name)
    else if c.dataType = .char ∧ c.charLength ≤ 0 then .error (.charLength c.name)
    else
      let length := if c.dataType = .char then c.charLength.toUInt64 else 0
      let added := { Attribute.plain c.name c.dataType length c.nullable with table := t.name }
      addColumns { t with schema := t.schema ++ [added] } rest

/-- Makes columns part of the primary key one by one; a repeated name counts once. -/
def addKeyColumns (t : Table) : List String → Except Error Table
  | [] => .ok t
  | name :: rest =>
    if (t.attribute? name).isNone then .error (.undefinedColumn name)
    else
      let marked := t.modifyAttribute name Attribute.asPrimary
      let key := if name ∈ t.primaryKey then t.primaryKey else t.primaryKey ++ [name]
      addKeyColumns { marked with primaryKey := key } rest

/-- The columns of the given names, all of which have to be defined. -/
def definedColumns (schema : Schema) : List String → Except Error (List Attribute)
  | [] => .ok []
  | name :: rest =>
    match schema.find? (·.name == name) with
    | none => .error (.undefinedColumn name)
    | some a => do
      let others ← definedColumns schema rest
      return a :: others

/-- Checks that each source column is paired with a primary key column of its type. -/
def checkPairs (target : Table) : List (Attribute × String) → Except Error Unit
  | [] => .ok ()
  | (source, reference) :: rest =>
    match target.attribute? reference with
    | none => .error (.referenceColumn reference)
    | some a =>
      if !a.primary then .error (.referenceNonPrimary reference)
      else if !source.sameType a then .error (.referenceType source.name)
      else checkPairs target rest

/-- Whether two lists hold the same names. -/
def sameNames (a b : List String) : Bool :=
  a.all (b.contains ·) && b.all (a.contains ·)

/-- The foreign key from columns of a schema to a target, if it fits: the lists are
equally long, the source columns are defined, each pair fits, and the whole primary
key is referenced. Whether it admits NULL is left open here. -/
def fitForeignKey (schema : Schema) (columns : List String) (target : Table)
    (references : List String) : Except Error ForeignKey :=
  if columns.length ≠ references.length then .error (.referenceType target.name)
  else do
    let sources ← definedColumns schema columns
    checkPairs target (sources.zip references)
    if sameNames references target.primaryKey then
      return ⟨columns, target.name, references, false⟩
    else .error (.referencePartialKey target.name)

/-- Marks the source columns of a foreign key, pair by pair. -/
def markReferences (t : Table) (target : String) : List (String × String) → Table
  | [] => t
  | (column, reference) :: rest =>
    markReferences (t.modifyAttribute column (·.referencing target reference)) target rest

/-- Takes a table out of a list of tables by its name. The last table moves to the
place that becomes free. -/
def takeNamed (name : String) (tables : List Table) : Option (Table × List Table) :=
  match tables.findIdx? (·.name == name) with
  | none => none
  | some i =>
    match tables[i]?, tables.getLast? with
    | some t, some last => some (t, (tables.set i last).dropLast)
    | _, _ => none

/-- The table with one more foreign key, whose target has been found. -/
def withForeignKey (t target : Table) (columns references : List String) :
    Except Error Table := do
  let fk ← fitForeignKey t.schema columns target references
  let marked := t.markReferences target.name (fk.columns.zip fk.refColumns)
  let nullable := fk.columns.all fun c => ((marked.attribute? c).map (·.nullable)).getD false
  return { marked with foreignKeys := t.foreignKeys ++ [{ fk with nullable := nullable }] }

/-- The table with one more table that references it. -/
def withReferrer (t : Table) (name : String) : Table :=
  { t with referencedBy := t.referencedBy.add name }

/-- The table without one of the tables that reference it. -/
def withoutReferrer (t : Table) (name : String) : Table :=
  { t with referencedBy := t.referencedBy.erase name }

end Table

namespace Access

open Table

variable {κ : Type} [Catalog κ]

/-- Adds a foreign key to the table. The targets that are already read are at hand,
and the one of this key is put behind the others. -/
def addForeignKey (t : Table) (targets : List Table) (columns : List String) (table : String)
    (references : List String) : Access κ (Table × List Table) := do
  let (target, others) ←
    match takeNamed table targets with
    | some found => pure found
    | none => do
      match ← load table with
      | some target => pure (target, targets)
      | none => fail (.referenceTable table)
  let t' ← t.withForeignKey target columns references
  return (t', others ++ [target])

/-- Adds the foreign keys among the constraints one by one. -/
def addForeignKeys : List TableConstraint → Table × List Table → Access κ (Table × List Table)
  | [], state => return state
  | .primaryKey _ :: rest, state => addForeignKeys rest state
  | .foreignKey columns table references :: rest, (t, targets) => do
    let state ← addForeignKey t targets columns table references
    addForeignKeys rest state

/-- Makes the table of a definition, without rows, and enters its name in the tables it
references. The table itself is not stored yet. -/
def define (name : String) (columns : List ColumnDefinition)
    (constraints : List TableConstraint) : Access κ Table := do
  let clauses := keyClauses columns constraints
  if 1 < clauses.length then fail .duplicatePrimaryKey
  else
    let withColumns ← (blank name).addColumns columns
    let withKey ← withColumns.addKeyColumns clauses.flatten
    let (t, targets) ← addForeignKeys constraints (withKey, [])
    saveAll (targets.map (·.withReferrer name))
    return t

end Access

end RelationalStore
