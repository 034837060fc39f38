import RelationalStore.Schema.Attribute

/-!
# Finding a column by name

A column reference is a column name, with or without a table in front. It resolves
when exactly one attribute answers to it; otherwise it is ambiguous, names a table
that is not there, or names a column that is not there, in this order of report.
-/

namespace RelationalStore

/-- A column reference as it is written. -/
def columnReference (table : Option String) (column : String) : String :=
  match table with
  | some t => t ++ "." ++ column
  | none => column

/-- Whether the attribute answers to a column reference. -/
def Attribute.answersTo (a : Attribute) (table : Option String) (column : String) : Bool :=
  a.name == column && table.all (a.table == ·)

namespace Schema

/-- The positions of the attributes with the given property. -/
def positions (holds : Attribute → Bool) (schema : Schema) : List Nat :=
  (schema.zipIdx.filter fun entry => holds entry.1).map Prod.snd

/-- The position of the one attribute that answers to a column reference. -/
def resolve (schema : Schema) (table : Option String) (column : String) : Except Error Nat :=
  let reference := columnReference table column
  match schema.positions (·.answersTo table column) with
  | [position] => .ok position
  | _ :: _ :: _ => .error (.whereAmbiguous reference)
  | [] =>
    match table with
    | some t =>
      if schema.any (·.table == t) then .error (.whereColumn reference)
      else .error (.whereTable t)
    | none => .error (.whereColumn reference)

end Schema

end RelationalStore
