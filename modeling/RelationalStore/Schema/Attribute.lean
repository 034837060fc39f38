import RelationalStore.Value.Basic

/-!
# Columns of a stored table

An attribute describes one column: its name and table, its type, and the rules that
its values keep. A schema is a list of attributes, and a row lays out its values in
the same order.
-/

namespace RelationalStore

/-- The description of one column. -/
structure Attribute where
  /-- The column's own name, without its table. -/
  name : String
  /-- The table, or the alias under which a query reads it. -/
  table : String
  dataType : DataType
  /-- The exact number of characters of a text; zero for the other types. -/
  charLength : UInt64
  /-- Whether the column admits NULL. -/
  nullable : Bool
  /-- Whether the column belongs to the primary key. -/
  primary : Bool
  /-- The table and column that a foreign key pairs this column with. -/
  references : Option (String × String)
  deriving DecidableEq, Repr

/-- The columns of a table or of a product of tables, in order. -/
abbrev Schema := List Attribute

namespace Attribute

/-- A column that belongs to no key and no table yet. -/
def plain (name : String) (dataType : DataType) (charLength : UInt64) (nullable : Bool) :
    Attribute where
  name := name
  table := ""
  dataType := dataType
  charLength := charLength
  nullable := nullable
  primary := false
  references := none

/-- The column's name behind that of its table. -/
def qualifiedName (a : Attribute) : String :=
  a.table ++ "." ++ a.name

/-- The column as a part of the primary key, which admits no NULL. -/
def asPrimary (a : Attribute) : Attribute :=
  { a with primary := true, nullable := false }

/-- The column as a part of a foreign key. -/
def referencing (a : Attribute) (table column : String) : Attribute :=
  { a with references := some (table, column) }

/-- Whether the column belongs to a foreign key. -/
def isForeign (a : Attribute) : Bool :=
  a.references.isSome

/-- Whether two columns have the same type, texts also the same length. -/
def sameType (a b : Attribute) : Bool :=
  a.dataType == b.dataType && (a.dataType != .char || a.charLength == b.charLength)

/-- Checks that a value may stand in the column: NULL only where it is admitted,
and otherwise a value of the column's type; a text has exactly the column's length. -/
def checkValue (a : Attribute) (v : Value) : Except Error Unit :=
  match v.dataType? with
  | none => if a.nullable then .ok () else .error (.insertNull a.name)
  | some type =>
    if type = a.dataType then
      match v with
      | .char s =>
        if s.length = a.charLength.toNat then .ok () else .error (.insertType a.name)
      | _ => .ok ()
    else .error (.insertType a.name)

/-- The column's type as it is printed. -/
def typeName (a : Attribute) : String :=
  match a.dataType with
  | .char => s!"char({a.charLength.toNat})"
  | other => other.text

/-- The mark of a key column in the description of a table. -/
def keyMark (a : Attribute) : String :=
  match a.primary, a.isForeign with
  | true, true => "PRI/FOR"
  | true, false => "PRI"
  | false, true => "FOR"
  | false, false => ""

end Attribute

/-- A rule that the values of some columns occur as a primary key in another table.
The two column lists are paired by position. -/
structure ForeignKey where
  /-- The columns that hold the reference. -/
  columns : List String
  /-- The table that is referenced. -/
  table : String
  /-- The primary key columns that are referenced. -/
  refColumns : List String
  /-- Whether every referencing column admits NULL. If so, deleting a referenced row
  sets the reference to NULL; if not, the row cannot be deleted. -/
  nullable : Bool
  deriving DecidableEq, Repr

end RelationalStore
