import RelationalStore.Value.Date

/-!
# Values

A value is NULL, an integer, a text or a date. NULL belongs to every type. Two
values can be compared only if both are present and of one type; what a comparison
with NULL means is decided where conditions are evaluated.
-/

namespace RelationalStore

/-- The type of a column. -/
inductive DataType where
  | integer
  | char
  | date
  deriving DecidableEq, Repr

/-- The type as it is printed. -/
def DataType.text : DataType → String
  | integer => "int"
  | char => "char"
  | date => "date"

/-- A single value. -/
inductive Value where
  | null
  | integer (n : Int64)
  | char (s : String)
  | date (d : Date)
  deriving DecidableEq, Repr

/-- A row holds one value for each column, in the order of the columns. -/
abbrev Row := List Value

namespace Value

/-- Whether the value is NULL. -/
def isNull : Value → Bool
  | null => true
  | _ => false

/-- The type of a value; NULL has none. -/
def dataType? : Value → Option DataType
  | null => none
  | integer _ => some .integer
  | char _ => some .char
  | date _ => some .date

/-- Whether two values may stand in one comparison: one of them is NULL, or they
have the same type. -/
def comparable (a b : Value) : Bool :=
  a.isNull || b.isNull || a.dataType? == b.dataType?

/-- The order of two present values of one type: integers by size, texts by code
points, dates by their ordinals. -/
def compare : Value → Value → Except Error Ordering
  | integer x, integer y => .ok (Ord.compare x.toInt y.toInt)
  | char x, char y => .ok (Ord.compare x y)
  | date x, date y => .ok (Ord.compare x.ordinal y.ordinal)
  | _, _ => .error .incomparable

/-- The value as it is printed. -/
def text : Value → String
  | null => "null"
  | integer n => toString n.toInt
  | char s => s
  | date d => d.text

/-- The number of characters that the printed value takes. -/
def width (v : Value) : Nat :=
  v.text.length

end Value

end RelationalStore
