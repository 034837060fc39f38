import RelationalStore.Condition.Basic
import RelationalStore.Table.Basic

/-!
# References between rows

A row references a key when the columns of a foreign key equal the key's values. The
test is the condition that puts the equalities together, so NULL references nothing.
References are looked up in two directions: a row that is inserted looks for its
target, and a row that is deleted looks for the rows that reference it.
-/

namespace RelationalStore

namespace ForeignKey

/-- The referencing columns, each with the value that the referenced key has for it. -/
def sourceCells (fk : ForeignKey) (key : Cells) : Except Error Cells :=
  (fk.refColumns.zip fk.columns).mapM fun (refColumn, column) =>
    match key.lookup refColumn with
    | some v => .ok (column, v)
    | none => .error (.invalidData s!"key of {fk.table} has no column {refColumn}")

/-- The rows of a table that reference a key through the foreign key, with their
positions. -/
def referencingRows (fk : ForeignKey) (t : Table) (key : Cells) :
    Except Error (List (Row × Nat)) := do
  let cells ← fk.sourceCells key
  Condition.matching (Condition.conjunction cells) t.schema t.rows

/-- The rows of the target that hold the key which the given source values reference. -/
def targetRows (fk : ForeignKey) (target : Table) (cells : Cells) :
    Except Error (List (Row × Nat)) :=
  Condition.matching (Condition.conjunction (fk.refColumns.zip (cells.map Prod.snd)))
    target.schema target.rows

end ForeignKey

namespace Table

/-- Whether a row of the table references the key of `target` through one of the
given foreign keys. -/
def restrictsThrough (t : Table) (key : Cells) : List ForeignKey → Except Error Bool
  | [] => .ok false
  | fk :: rest => do
    let rows ← fk.referencingRows t key
    if rows.isEmpty then restrictsThrough t key rest else .ok true

/-- Whether a row of one of the tables references the key of `target` through a
foreign key that admits no NULL. -/
def anyRestricts (target : String) (key : Cells) : List Table → Except Error Bool
  | [] => .ok false
  | t :: rest => do
    let found ←
      t.restrictsThrough key (t.foreignKeys.filter fun fk => fk.table == target && !fk.nullable)
    if found then .ok true else anyRestricts target key rest

/-- A row with NULL at a position that it has. -/
def setNull (row : Row) (position : Nat) : Except Failure Row :=
  if position < row.length then .ok (row.set position .null) else .error .noSuchCell

/-- The rows with NULL at some positions of those rows that are listed by number. -/
def nullRows (rows : List Row) (numbers positions : List Nat) : Except Failure (List Row) :=
  rows.zipIdx.mapM fun (row, number) =>
    if number ∈ numbers then positions.foldlM setNull row else .ok row

/-- Sets the foreign key to NULL in all rows that reference the key through it. Also
says how many these are. -/
def nullReferences (t : Table) (fk : ForeignKey) (key : Cells) : Except Failure (Table × Nat) := do
  let entries ← Failure.lift (fk.referencingRows t key)
  let positions ← Failure.lift (fk.columns.mapM t.columnIndex)
  let rows ← nullRows t.rows (entries.map Prod.snd) positions
  return ({ t with rows := rows }, entries.length)

/-- Does so for several foreign keys, one after another, and adds up the numbers. -/
def nullReferencesThrough (key : Cells) : List ForeignKey → Table × Nat →
    Except Failure (Table × Nat)
  | [], state => .ok state
  | fk :: rest, (t, count) => do
    let (t', n) ← t.nullReferences fk key
    nullReferencesThrough key rest (t', count + n)

/-- Sets to NULL all references of the table to the key of `target` that admit NULL. -/
def cascadeNull (t : Table) (target : String) (key : Cells) : Except Failure (Table × Nat) :=
  nullReferencesThrough key (t.foreignKeys.filter fun fk => fk.table == target && fk.nullable)
    (t, 0)

end Table

end RelationalStore
