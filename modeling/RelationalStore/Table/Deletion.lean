import RelationalStore.Catalog.Access
import RelationalStore.Table.Reference

/-!
# Deleting rows

The rows to delete are those on which a condition is true. In a table with a primary
key each of them is first looked up in the tables that reference it: a reference
that admits no NULL blocks the deletion of the row, and otherwise the references to
it become NULL. The referencing tables that have changed are stored once all rows have
been decided about.
-/

namespace RelationalStore

/-- The state of a deletion that goes through the chosen rows one by one. -/
structure Deletion where
  /-- The referencing tables as they are now, each with whether it has changed. -/
  referrers : List (Table × Bool)
  /-- The positions of the rows that go. -/
  removed : List Nat
  /-- The number of rows that stay because they are referenced. -/
  blocked : Nat

namespace Deletion

/-- Goes on to the next referencing table when NULL is set in all of them. -/
def cascade (target : String) (key : Cells) :
    List (Table × Bool) → Except Failure (List (Table × Bool))
  | [] => .ok []
  | (t, changed) :: rest => do
    let (t', count) ← t.cascadeNull target key
    let rest' ← cascade target key rest
    return (t', changed || decide (0 < count)) :: rest'

/-- Decides about one chosen row: it is blocked, or its references become NULL. -/
def decideRow (t : Table) (d : Deletion) (entry : Row × Nat) : Except Failure Deletion :=
  if t.primaryKey.isEmpty then .ok { d with removed := d.removed ++ [entry.2] }
  else do
    let key ← Failure.lift (t.cells entry.1 t.primaryKey)
    if ← Failure.lift (Table.anyRestricts t.name key (d.referrers.map Prod.fst)) then
      return { d with blocked := d.blocked + 1 }
    else
      let referrers ← cascade t.name key d.referrers
      return { d with referrers := referrers, removed := d.removed ++ [entry.2] }

/-- The referencing tables that have changed. -/
def changed (d : Deletion) : List Table :=
  (d.referrers.filter Prod.snd).map Prod.fst

end Deletion

/-- The table without the rows at some positions. -/
def Table.withoutRows (t : Table) (removed : List Nat) : Table :=
  { t with rows := (t.rows.zipIdx.filter fun entry => !removed.contains entry.2).map Prod.fst }

namespace Access

variable {κ : Type} [Catalog κ]

/-- Reads the tables of the given names that exist. -/
def readAll : List String → Access κ (List Table)
  | [] => return []
  | name :: rest => do
    let t? ← load name
    let others ← readAll rest
    return t?.toList ++ others

/-- Reads the tables that are looked up for references to rows of this one. -/
def referrers (t : Table) : Access κ (List Table) :=
  if t.primaryKey.isEmpty then return [] else readAll t.referencedBy.keys

/-- Deletes the rows on which the condition is true, and stores the referencing tables that
have changed. Gives the remaining table, which is not stored yet, with the account of the
deletion. -/
def delete (t : Table) (condition : Option Condition) : Access κ (Table × Deletion) := do
  let chosen ← Condition.matching condition t.schema t.rows
  let referrers ← referrers t
  let d ← chosen.foldlM (fun d entry => liftM (Deletion.decideRow t d entry))
    ⟨referrers.map fun r => (r, false), [], 0⟩
  saveAll d.changed
  return (t.withoutRows d.removed, d)

end Access

end RelationalStore
