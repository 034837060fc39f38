import RelationalStore.Binary.Basic
import RelationalStore.Table.Basic

/-!
# Binary forms of values and tables

The fields of a structure follow one another in the order of their declaration, and
alternatives are numbered in the order of theirs.
-/

namespace RelationalStore

namespace Binary

instance : Binary DataType where
  write
    | .integer => writeNat 0
    | .char => writeNat 1
    | .date => writeNat 2
  read := do
    match ← readNat 4 with
    | 0 => return .integer
    | 1 => return .char
    | 2 => return .date
    | _ => fail

instance : Binary Date where
  write d := write d.year ++ write d.month ++ write d.day
  read := return ⟨← read, ← read, ← read⟩

instance : Binary Value where
  write
    | .null => writeNat 0
    | .integer n => writeNat 1 ++ write n
    | .char s => writeNat 2 ++ write s
    | .date d => writeNat 3 ++ write d
  read := do
    match ← readNat 4 with
    | 0 => return .null
    | 1 => return .integer (← read)
    | 2 => return .char (← read)
    | 3 => return .date (← read)
    | _ => fail

instance : Binary Attribute where
  write a := write a.name ++ write a.table ++ write a.dataType ++ write a.charLength ++
    write a.nullable ++ write a.primary ++ write a.references
  read := return ⟨← read, ← read, ← read, ← read, ← read, ← read, ← read⟩

instance : Binary ForeignKey where
  write fk := write fk.columns ++ write fk.table ++ write fk.refColumns ++ write fk.nullable
  read := return ⟨← read, ← read, ← read, ← read⟩

instance : Binary Table where
  write t := write t.name ++ write t.schema ++ write t.rows ++ write t.primaryKey ++
    write t.foreignKeys ++ write t.referencedBy
  read := return ⟨← read, ← read, ← read, ← read, ← read, ← read⟩

end Binary

end RelationalStore
