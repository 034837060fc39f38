import RelationalStore.Table.Basic

/-!
# Catalogs

A catalog keeps tables by name. Loading may fail, because what is kept under a name
need not be a table; storing does not fail. A table is stored under its own name.
-/

namespace RelationalStore

/-- A place where tables are kept. -/
class Catalog (κ : Type) where
  /-- The table of a name, or none if nothing is kept under it. -/
  load : κ → String → Except Failure (Option Table)
  /-- Keeps a table under its own name, in place of one kept there before. -/
  save : κ → Table → κ
  /-- Removes what is kept under a name. -/
  remove : κ → String → κ
  /-- Whether anything is kept under a name. -/
  has : κ → String → Bool
  /-- The names in ascending order of their code points. -/
  names : κ → Except Failure (List String)

end RelationalStore
