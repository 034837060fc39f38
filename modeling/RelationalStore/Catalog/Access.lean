import RelationalStore.Catalog.Basic

/-!
# Working on a catalog

A statement works on a catalog step by step, and each step finds the catalog as the one before
has left it. A step that fails ends the work. Nothing is taken back then: what has been stored
before it stays stored.
-/

namespace RelationalStore

/-- Work on a catalog: what comes of it, and the catalog that it leaves, also where it fails. -/
def Access (κ α : Type) : Type := κ → Except Failure α × κ

namespace Access

variable {κ α : Type}

instance : Monad (Access κ) where
  pure a catalog := (.ok a, catalog)
  bind x next catalog :=
    match x catalog with
    | (.ok a, left) => next a left
    | (.error failure, left) => (.error failure, left)

/-- What is worked out without the catalog is a step that leaves it as it is. -/
instance : MonadLift (Except Failure) (Access κ) where
  monadLift result catalog := (result, catalog)

/-- So is what may fail for a proper cause only. -/
instance : MonadLift (Except Error) (Access κ) where
  monadLift result catalog := (Failure.lift result, catalog)

/-- Ends the work for a cause. -/
def fail (cause : Error) : Access κ α := fun catalog => (.error (.error cause), catalog)

variable [Catalog κ]

/-- Reads the table of a name, if there is one. -/
def load (name : String) : Access κ (Option Table) :=
  fun catalog => (Catalog.load catalog name, catalog)

/-- Stores a table under its own name. -/
def save (t : Table) : Access κ Unit := fun catalog => (.ok (), Catalog.save catalog t)

/-- Removes what is kept under a name. -/
def remove (name : String) : Access κ Unit := fun catalog => (.ok (), Catalog.remove catalog name)

/-- Asks whether anything is kept under a name. -/
def has (name : String) : Access κ Bool := fun catalog => (.ok (Catalog.has catalog name), catalog)

/-- Lists the names of all tables. -/
def names : Access κ (List String) := fun catalog => (Catalog.names catalog, catalog)

/-- Reads the table that a statement is about. -/
def require (name : String) : Access κ Table := do
  match ← load name with
  | some t => return t
  | none => fail (.noSuchTable name)

/-- Stores several tables, one after another. -/
def saveAll : List Table → Access κ Unit
  | [] => return ()
  | t :: rest => do
    save t
    saveAll rest

end Access

end RelationalStore
