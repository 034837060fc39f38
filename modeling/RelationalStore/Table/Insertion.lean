import RelationalStore.Table.Reference

/-!
# Inserting a row

A row is given whole or with a list of columns, and columns that are not listed are
NULL. It is then checked cell by cell, against the primary key and against the
foreign keys, and only then added at the end.
-/

namespace RelationalStore

namespace Table

/-- The first name in the list that has occurred before. -/
def firstRepeated? (seen : List String) : List String → Option String
  | [] => none
  | name :: rest => if name ∈ seen then some name else firstRepeated? (name :: seen) rest

/-- The row that has the given values in their columns and NULL in the others. Each
value is used once. -/
def arrange : Schema → Cells → Row
  | [], _ => []
  | a :: rest, given =>
    (given.lookup a.name).getD .null :: arrange rest (given.filter (·.1 != a.name))

/-- Checks each value against its column, in the order of the columns. -/
def checkValues : Schema → Row → Except Error Unit
  | a :: schema, v :: row => do
    a.checkValue v
    checkValues schema row
  | _, _ => .ok ()

/-- The row that an insertion gives, before its values are checked. -/
def givenRow (t : Table) (columns : Option (List String)) (values : List Value) :
    Except Error Row :=
  match columns with
  | none => if values.length = t.schema.length then .ok values else .error (.insertType t.name)
  | some names =>
    if names.length ≠ values.length then .error (.insertType t.name)
    else
      match firstRepeated? [] names with
      | some name => .error (.insertType name)
      | none =>
        match names.find? fun name => (t.attribute? name).isNone with
        | some name => .error (.insertColumn name)
        | none => .ok (arrange t.schema (names.zip values))

/-- The row that an insertion gives, with every value checked against its column. -/
def buildRow (t : Table) (columns : Option (List String)) (values : List Value) :
    Except Error Row := do
  let row ← t.givenRow columns values
  checkValues t.schema row
  return row

/-- Refuses a row whose primary key is taken. A table without primary key refuses
none. -/
def checkPrimaryKey (t : Table) (row : Row) : Except Error Unit := do
  let key ← t.cells row t.primaryKey
  match Condition.conjunction key with
  | none => return ()
  | some condition =>
    let taken ← Condition.matching (some condition) t.schema t.rows
    if taken.isEmpty then return () else .error .insertDuplicateKey

/-- Whether one of the foreign keys has a NULL in the row. -/
def hasNullReference (t : Table) (row : Row) : List ForeignKey → Except Error Bool
  | [] => .ok false
  | fk :: rest => do
    let cells ← t.cells row fk.columns
    if cells.any (·.2.isNull) then .ok true else hasNullReference t row rest

/-- Refuses a row that references a row that the target of the foreign key, which has been found,
does not have. -/
def checkTarget (t : Table) (row : Row) (fk : ForeignKey) (target : Table) :
    Except Error Unit := do
  let cells ← t.cells row fk.columns
  let found ← fk.targetRows target cells
  if found.isEmpty then .error (.insertReference fk.table) else .ok ()

section Reading

/-! An insertion only reads. So it may be made wherever tables can be read, in whatever way of
working that can fail. -/

variable {m : Type → Type} [Monad m] [MonadLiftT (Except Failure) m]

/-- Reads the targets of the foreign keys one after another, and refuses a row that references
a row that one of them does not have. -/
def checkTargets (t : Table) (row : Row) (read : String → m (Option Table)) :
    List ForeignKey → m Unit
  | [] => return ()
  | fk :: rest => do
    match ← read fk.table with
    | none => Failure.lift (.error (.insertReference fk.table))
    | some target =>
      Failure.lift (t.checkTarget row fk target)
      checkTargets t row read rest

/-- Refuses a row whose references lack a target. A NULL in any foreign key waives
the check of them all, and then no target is read. -/
def checkForeignKeys (t : Table) (row : Row) (read : String → m (Option Table)) : m Unit := do
  if ← Failure.lift (t.hasNullReference row t.foreignKeys) then return ()
  else t.checkTargets row read t.foreignKeys

/-- The table with one more row at its end. -/
def insert (t : Table) (columns : Option (List String)) (values : List Value)
    (read : String → m (Option Table)) : m Table := do
  let row ← Failure.lift (t.buildRow columns values)
  Failure.lift (t.checkPrimaryKey row)
  t.checkForeignKeys row read
  return { t with rows := t.rows ++ [row] }

end Reading

end Table

end RelationalStore
