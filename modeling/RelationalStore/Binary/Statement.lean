import RelationalStore.Binary.Table
import RelationalStore.Statement.Basic

/-!
# Binary forms of statements and errors

A condition is a tree, and its reader is bounded by the number of bytes at hand:
every node of the tree takes at least one of them.
-/

namespace RelationalStore

namespace Binary

instance : Binary Comparator where
  write
    | .eq => writeNat 0
    | .notEq => writeNat 1
    | .greater => writeNat 2
    | .greaterEq => writeNat 3
    | .less => writeNat 4
    | .lessEq => writeNat 5
    | .isNull => writeNat 6
    | .isNotNull => writeNat 7
  read := do
    match ← readNat 4 with
    | 0 => return .eq
    | 1 => return .notEq
    | 2 => return .greater
    | 3 => return .greaterEq
    | 4 => return .less
    | 5 => return .lessEq
    | 6 => return .isNull
    | 7 => return .isNotNull
    | _ => fail

instance : Binary Operand where
  write
    | .const v => writeNat 0 ++ write v
    | .column table name => writeNat 1 ++ write table ++ write name
  read := do
    match ← readNat 4 with
    | 0 => return .const (← read)
    | 1 => return .column (← read) (← read)
    | _ => fail

instance : Binary Comparison where
  write c := write c.comparator ++ write c.left ++ write c.right
  read := return ⟨← read, ← read, ← read⟩

/-- Writes a condition. -/
def writeCondition : Condition → Bytes
  | .not c => writeNat 0 ++ writeCondition c
  | .and a b => writeNat 1 ++ writeCondition a ++ writeCondition b
  | .or a b => writeNat 2 ++ writeCondition a ++ writeCondition b
  | .holds c => writeNat 3 ++ write c

/-- Reads a condition whose tree has at most the given depth. -/
def readCondition : Nat → Reader Condition
  | 0 => fail
  | depth + 1 => do
    match ← readNat 4 with
    | 0 => return .not (← readCondition depth)
    | 1 => return .and (← readCondition depth) (← readCondition depth)
    | 2 => return .or (← readCondition depth) (← readCondition depth)
    | 3 => return .holds (← read)
    | _ => fail

instance : Binary Condition where
  write := writeCondition
  read := fun input => readCondition input.length input

instance : Binary ColumnDefinition where
  write c := write c.name ++ write c.dataType ++ write c.charLength ++ write c.nullable ++
    write c.primaryKey
  read := return ⟨← read, ← read, ← read, ← read, ← read⟩

instance : Binary TableConstraint where
  write
    | .primaryKey columns => writeNat 0 ++ write columns
    | .foreignKey columns table references =>
      writeNat 1 ++ write columns ++ write table ++ write references
  read := do
    match ← readNat 4 with
    | 0 => return .primaryKey (← read)
    | 1 => return .foreignKey (← read) (← read) (← read)
    | _ => fail

instance : Binary Source where
  write s := write s.name ++ write s.asName
  read := return ⟨← read, ← read⟩

instance : Binary Projection where
  write p := write p.table ++ write p.column ++ write p.asName
  read := return ⟨← read, ← read, ← read⟩

instance : Binary Statement where
  write
    | .createTable name columns constraints =>
      writeNat 0 ++ write name ++ write columns ++ write constraints
    | .dropTable name => writeNat 1 ++ write name
    | .describe name => writeNat 2 ++ write name
    | .showTables => writeNat 3
    | .insert table columns values => writeNat 4 ++ write table ++ write columns ++ write values
    | .delete table condition => writeNat 5 ++ write table ++ write condition
    | .select projection sources condition =>
      writeNat 6 ++ write projection ++ write sources ++ write condition
  read := do
    match ← readNat 4 with
    | 0 => return .createTable (← read) (← read) (← read)
    | 1 => return .dropTable (← read)
    | 2 => return .describe (← read)
    | 3 => return .showTables
    | 4 => return .insert (← read) (← read) (← read)
    | 5 => return .delete (← read) (← read)
    | 6 => return .select (← read) (← read) (← read)
    | _ => fail

/-- The number of a cause among all causes. -/
def errorNumber : Error → Nat
  | .invalidData _ => 0
  | .io _ => 1
  | .encode _ => 2
  | .decode _ => 3
  | .config _ => 4
  | .tableExists _ => 5
  | .noSuchTable _ => 6
  | .duplicateColumn _ => 7
  | .duplicatePrimaryKey => 8
  | .charLength _ => 9
  | .undefinedColumn _ => 10
  | .referenceTable _ => 11
  | .referenceColumn _ => 12
  | .referenceNonPrimary _ => 13
  | .referenceType _ => 14
  | .referencePartialKey _ => 15
  | .dropReferenced _ => 16
  | .insertType _ => 17
  | .insertColumn _ => 18
  | .insertNull _ => 19
  | .insertDuplicateKey => 20
  | .insertReference _ => 21
  | .selectTable _ => 22
  | .duplicateAlias _ => 23
  | .selectColumn _ => 24
  | .incomparable => 25
  | .whereTable _ => 26
  | .whereColumn _ => 27
  | .whereAmbiguous _ => 28

/-- The subject of a cause, which some causes lack. -/
def writeSubject (e : Error) : Bytes :=
  match e.subject? with
  | some s => write s
  | none => []

instance : Binary Error where
  write e := writeNat (errorNumber e) ++ writeSubject e
  read := do
    match ← readNat 4 with
    | 0 => return .invalidData (← read)
    | 1 => return .io (← read)
    | 2 => return .encode (← read)
    | 3 => return .decode (← read)
    | 4 => return .config (← read)
    | 5 => return .tableExists (← read)
    | 6 => return .noSuchTable (← read)
    | 7 => return .duplicateColumn (← read)
    | 8 => return .duplicatePrimaryKey
    | 9 => return .charLength (← read)
    | 10 => return .undefinedColumn (← read)
    | 11 => return .referenceTable (← read)
    | 12 => return .referenceColumn (← read)
    | 13 => return .referenceNonPrimary (← read)
    | 14 => return .referenceType (← read)
    | 15 => return .referencePartialKey (← read)
    | 16 => return .dropReferenced (← read)
    | 17 => return .insertType (← read)
    | 18 => return .insertColumn (← read)
    | 19 => return .insertNull (← read)
    | 20 => return .insertDuplicateKey
    | 21 => return .insertReference (← read)
    | 22 => return .selectTable (← read)
    | 23 => return .duplicateAlias (← read)
    | 24 => return .selectColumn (← read)
    | 25 => return .incomparable
    | 26 => return .whereTable (← read)
    | 27 => return .whereColumn (← read)
    | 28 => return .whereAmbiguous (← read)
    | _ => fail

end Binary

end RelationalStore
