import RelationalStore.Binary.Table
import RelationalStore.Catalog.Basic
import RelationalStore.Store.Basic
import RelationalStore.Text.Escaped

/-!
# Catalogs in byte stores

A table is kept in its binary form under a key that starts with `table/` and goes on
with the name of the table. What is found under a key need not be a table, and the
name that is kept inside a table need not be that of its key.
-/

namespace RelationalStore

/-- A catalog that keeps its tables in a byte store. -/
structure TableStore (σ : Type) where
  store : σ
  deriving DecidableEq

namespace TableStore

/-- The bytes at the start of the key of every table. -/
def keyStart : Bytes := Bytes.ofText "table/"

/-- The key of a table. -/
def keyOf (name : String) : Key :=
  keyStart ++ Bytes.ofText name

/-- The name of the table that is kept under a key. -/
def nameOf (k : Key) : Except Error String :=
  match Bytes.toText? (k.drop keyStart.length) with
  | some name => .ok name
  | none => .error (.invalidData s!"invalid table key {Text.escapedBytes k}")

variable {σ : Type} [ByteStore σ]

/-- The bytes of a table, if it is kept. -/
def load (catalog : TableStore σ) (name : String) : Except Failure (Option Table) := do
  match ← Failure.lift (ByteStore.get catalog.store (keyOf name)) with
  | some bytes => return some (← Binary.decode bytes)
  | none => return none

/-- The names of all tables that are kept. -/
def names (catalog : TableStore σ) : Except Failure (List String) := do
  let bindings ← ByteStore.scanStart catalog.store keyStart
  bindings.mapM fun binding => Failure.lift (nameOf binding.1)

instance : Catalog (TableStore σ) where
  load := load
  save catalog t := ⟨ByteStore.set catalog.store (keyOf t.name) (Binary.write t)⟩
  remove catalog name := ⟨ByteStore.delete catalog.store (keyOf name)⟩
  has catalog name := ByteStore.has catalog.store (keyOf name)
  names := names

end TableStore

end RelationalStore
