/-!
# Values of TOML

A document of TOML is a table: names bound to values, which may be lists and tables
again. A table remembers how it came to be, because that decides whether it may be
opened or extended later in the document.
-/

namespace RelationalStore

/-- How a table has come to be. -/
inductive Toml.Origin where
  /-- It has a header of its own, or it is the document itself. -/
  | header
  /-- The header of another table leads through it. -/
  | passed
  /-- A key of several parts leads through it. -/
  | dotted
  /-- It is written in braces. -/
  | braced
  deriving DecidableEq, Repr

/-- A value of TOML. -/
inductive Toml where
  | text (s : String)
  | integer (n : Int)
  | float (x : Float)
  /-- Something written like a number that stands for none, or for one out of range. -/
  | valueless
  | boolean (b : Bool)
  /-- A date, a time of day, or both. -/
  | moment
  /-- A list in brackets. -/
  | list (items : List Toml)
  /-- The tables of a header that may be repeated. -/
  | tables (items : List Toml)
  /-- A table with its members in the order in which they are bound. -/
  | table (origin : Toml.Origin) (members : List (String × Toml))

end RelationalStore
