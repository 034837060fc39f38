import RelationalStore.Toml.Basic

/-!
# Members of tables

A key of several parts leads through tables, which are made where they are missing.
Where it may lead depends on what the tables on its way are: nothing is added later
to a table in braces, and a key of several parts leads through no table that has a
header of its own.
-/

namespace RelationalStore.Toml

/-- The members of a table with how it has come to be. -/
structure Content where
  origin : Origin
  members : List (String × Toml)

namespace Content

/-- The content as a value. -/
def toToml (c : Content) : Toml :=
  .table c.origin c.members

/-- The content with one more member. -/
def add (c : Content) (name : String) (value : Toml) : Content :=
  { c with members := c.members ++ [(name, value)] }

/-- The content with another value for a member. -/
def replace (c : Content) (name : String) (value : Toml) : Content :=
  { c with members := c.members.map fun m => if m.1 = name then (name, value) else m }

/-- Whether a way that makes tables of the given origin leads through a table. -/
def leads (made through : Origin) : Bool :=
  match through with
  | .braced => false
  | .header => made ≠ .dotted
  | .passed | .dotted => true

/-- Changes the table at the end of a path. Tables that are missing on the way are
made with the given origin; a repeated header stands for the last of its tables. -/
def changeAt (made : Origin) (change : Content → Option Content) :
    List String → Content → Option Content
  | [], c => change c
  | name :: path, c =>
    match c.members.lookup name with
    | none => do
      let inner ← changeAt made change path ⟨made, []⟩
      return c.add name inner.toToml
    | some (.table origin members) =>
      if leads made origin then do
        let inner ← changeAt made change path ⟨origin, members⟩
        return c.replace name inner.toToml
      else none
    | some (.tables items) =>
      match items.getLast? with
      | some (.table origin members) => do
        let inner ← changeAt made change path ⟨origin, members⟩
        return c.replace name (.tables (items.dropLast ++ [inner.toToml]))
      | _ => none
    | some _ => none

/-- Binds a name in the table that a key leads to. The name has to be new, and a key
of several parts ends in no table that only headers lead through. -/
def bind (path : List String) (name : String) (value : Toml) (c : Content) : Option Content :=
  changeAt .dotted
    (fun inner =>
      if !path.isEmpty && inner.origin ≠ .dotted then none
      else if (inner.members.lookup name).isSome then none
      else some (inner.add name value))
    path c

/-- Opens the table of a header. It has to be new, or other headers have led through
it but none has opened it. -/
def openTable (path : List String) (name : String) (c : Content) : Option Content :=
  changeAt .passed
    (fun inner =>
      match inner.members.lookup name with
      | none => some (inner.add name (.table .header []))
      | some (.table .passed members) => some (inner.replace name (.table .header members))
      | some _ => none)
    path c

/-- Adds a table to those of a header that may be repeated. -/
def addTable (path : List String) (name : String) (c : Content) : Option Content :=
  changeAt .passed
    (fun inner =>
      match inner.members.lookup name with
      | none => some (inner.add name (.tables [.table .header []]))
      | some (.tables items) => some (inner.replace name (.tables (items ++ [.table .header []])))
      | some _ => none)
    path c

end Content

end RelationalStore.Toml
