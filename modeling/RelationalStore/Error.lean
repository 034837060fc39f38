/-!
# Causes of failure

Every refusal of the store is one of the causes below. A cause names at most one
thing: the table, the column or the alias at fault, or a line of detail. Its
wording is in `Error.message` alone.
-/

namespace RelationalStore

/-- Why a request is refused. -/
inductive Error where
  /-- Stored data break a rule that the store keeps, or a literal is malformed. -/
  | invalidData (detail : String)
  /-- A file cannot be read or written. -/
  | io (detail : String)
  /-- A value has no binary form. -/
  | encode (detail : String)
  /-- Bytes are not the binary form of a value. -/
  | decode (detail : String)
  /-- The settings cannot be used. -/
  | config (detail : String)
  /-- A table of that name is already stored. -/
  | tableExists (table : String)
  /-- No table of that name is stored. -/
  | noSuchTable (table : String)
  /-- A definition names a column twice. -/
  | duplicateColumn (column : String)
  /-- A definition has more than one primary key clause. -/
  | duplicatePrimaryKey
  /-- A character column has no positive length. -/
  | charLength (column : String)
  /-- A constraint names a column that the definition lacks. -/
  | undefinedColumn (column : String)
  /-- A foreign key points at a table that is not stored. -/
  | referenceTable (table : String)
  /-- A foreign key points at a column that its target lacks. -/
  | referenceColumn (column : String)
  /-- A foreign key points at a column outside the primary key of its target. -/
  | referenceNonPrimary (column : String)
  /-- A foreign key pairs columns of different types, or lists of different lengths. -/
  | referenceType (column : String)
  /-- A foreign key leaves out a part of its target's primary key. -/
  | referencePartialKey (table : String)
  /-- A table that others reference is to be dropped. -/
  | dropReferenced (table : String)
  /-- A value does not fit its column. -/
  | insertType (column : String)
  /-- An insertion names a column that the table lacks. -/
  | insertColumn (column : String)
  /-- A column that admits no NULL is left without a value. -/
  | insertNull (column : String)
  /-- The primary key of a new row is already taken. -/
  | insertDuplicateKey
  /-- A new row references a row that its target lacks. -/
  | insertReference (table : String)
  /-- A query reads a table that is not stored. -/
  | selectTable (table : String)
  /-- A query gives two tables the same alias. -/
  | duplicateAlias (name : String)
  /-- A query asks for a column that does not name exactly one column. -/
  | selectColumn (column : String)
  /-- A condition compares values of different types. -/
  | incomparable
  /-- A condition names a table outside the rows it is asked of. -/
  | whereTable (table : String)
  /-- A condition names a column that does not exist. -/
  | whereColumn (column : String)
  /-- A condition names a column that several tables have. -/
  | whereAmbiguous (column : String)
  deriving DecidableEq, Repr

/-- Why an operation gives no result: it is refused, or it reaches for something
that is not there. -/
inductive Failure where
  /-- The request is refused for a cause. -/
  | error (cause : Error)
  /-- A row has no cell at the position asked for. -/
  | noSuchCell
  /-- An interval of keys ends before it starts. -/
  | improperInterval
  /-- Bytes announce a text that is longer than any memory. -/
  | boundlessText
  deriving DecidableEq, Repr

/-- An operation that can only be refused, used where cells are also reached for. -/
def Failure.lift {α : Type} : Except Error α → Except Failure α
  | .ok a => .ok a
  | .error e => .error (.error e)

/-- What succeeds is lifted as it is. -/
@[simp] theorem Failure.lift_ok {α : Type} (a : α) : Failure.lift (.ok a) = .ok a := rfl

/-- An error is lifted to the failure that reports it. -/
@[simp] theorem Failure.lift_error {α : Type} (e : Error) :
    (Failure.lift (.error e) : Except Failure α) = .error (.error e) := rfl

namespace Error

/-- The word for the cause. -/
def label : Error → String
  | invalidData _ => "InvalidData"
  | io _ => "IO"
  | encode _ => "Encode"
  | decode _ => "Decode"
  | config _ => "ConfigError"
  | tableExists _ => "TableExists"
  | noSuchTable _ => "NoSuchTable"
  | duplicateColumn _ => "DuplicateColumnDef"
  | duplicatePrimaryKey => "DuplicatePrimaryKeyDef"
  | charLength _ => "CharLength"
  | undefinedColumn _ => "NonExistingColumnDef"
  | referenceTable _ => "ReferenceTableExistence"
  | referenceColumn _ => "ReferenceColumnExistence"
  | referenceNonPrimary _ => "ReferenceNonPrimaryKey"
  | referenceType _ => "ReferenceType"
  | referencePartialKey _ => "ReferencePartialKey"
  | dropReferenced _ => "DropReferencedTable"
  | insertType _ => "InsertTypeMismatch"
  | insertColumn _ => "InsertColumnExistence"
  | insertNull _ => "InsertColumnNonNullable"
  | insertDuplicateKey => "InsertDuplicatePrimaryKey"
  | insertReference _ => "InsertReferentialIntegrity"
  | selectTable _ => "SelectTableExistence"
  | duplicateAlias _ => "DuplicateTableAlias"
  | selectColumn _ => "SelectColumnResolve"
  | incomparable => "WhereIncomparable"
  | whereTable _ => "WhereTableNotSpecified"
  | whereColumn _ => "WhereColumnNotExist"
  | whereAmbiguous _ => "WhereAmbiguousReference"

/-- What the cause is about, if it names something. -/
def subject? : Error → Option String
  | invalidData s | io s | encode s | decode s | config s => some s
  | tableExists s | noSuchTable s => some s
  | duplicateColumn s | charLength s | undefinedColumn s => some s
  | referenceTable s | referenceColumn s | referenceNonPrimary s => some s
  | referenceType s | referencePartialKey s | dropReferenced s => some s
  | insertType s | insertColumn s | insertNull s | insertReference s => some s
  | selectTable s | duplicateAlias s | selectColumn s => some s
  | whereTable s | whereColumn s | whereAmbiguous s => some s
  | duplicatePrimaryKey | insertDuplicateKey | incomparable => none

/-- The message shown for the cause. -/
def message : Error → String
  | invalidData detail => s!"invalid data: {detail}"
  | io detail => s!"io error: {detail}"
  | encode detail => s!"encode error: {detail}"
  | decode detail => s!"decode error: {detail}"
  | config detail => s!"config error: {detail}"
  | tableExists table => s!"create table has failed: table '{table}' already exists"
  | noSuchTable table => s!"no such table: '{table}'"
  | duplicateColumn column =>
    s!"create table has failed: column '{column}' is defined more than once"
  | duplicatePrimaryKey => "create table has failed: primary key definition is duplicated"
  | charLength column => s!"char length of column '{column}' should be over 0"
  | undefinedColumn column =>
    s!"create table has failed: '{column}' does not exist in column definition"
  | referenceTable table =>
    s!"create table has failed: foreign key references non existing table '{table}'"
  | referenceColumn column =>
    s!"create table has failed: foreign key references non existing column '{column}'"
  | referenceNonPrimary column =>
    s!"create table has failed: foreign key references non primary key column '{column}'"
  | referenceType column =>
    s!"create table has failed: foreign key references wrong type '{column}'"
  | referencePartialKey table =>
    s!"create table has failed: foreign key must reference the whole primary key of '{table}'"
  | dropReferenced table => s!"drop table has failed: '{table}' is referenced by other table"
  | insertType column => s!"insertion has failed: types are not matched for '{column}'"
  | insertColumn column => s!"insertion has failed: '{column}' does not exist"
  | insertNull column => s!"insertion has failed: '{column}' is not nullable"
  | insertDuplicateKey => "insertion has failed: primary key duplication"
  | insertReference table =>
    s!"insertion has failed: referential integrity violation on '{table}'"
  | selectTable table => s!"selection has failed: '{table}' does not exist"
  | duplicateAlias name => s!"selection has failed: table name '{name}' is used more than once"
  | selectColumn column => s!"selection has failed: fail to resolve '{column}'"
  | incomparable => "where clause try to compare incomparable values"
  | whereTable table =>
    s!"where clause try to reference tables which are not specified: '{table}'"
  | whereColumn column => s!"where clause try to reference non existing column '{column}'"
  | whereAmbiguous column => s!"where clause contains ambiguous reference '{column}'"

end Error

end RelationalStore
