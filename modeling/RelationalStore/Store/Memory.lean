import RelationalStore.Store.Basic

/-!
# A store in memory

The plain byte store: a sorted map, all of whose space is needed.
-/

namespace RelationalStore

/-- A byte store that is lost when it is closed. -/
structure Memory where
  index : KeyIndex Bytes
  deriving DecidableEq

namespace Memory

/-- The store without bindings. -/
def empty : Memory := ⟨KeyIndex.empty⟩

/-- The bytes of all keys and values. -/
def size (m : Memory) : Nat :=
  m.index.bindings.entries.foldr (fun e n => e.1.length + e.2.length + n) 0

/-- The space taken. -/
def usage (m : Memory) : Usage where
  name := "memory"
  logicalSize := m.size
  totalCount := m.index.bindings.size
  totalSize := m.size
  liveSize := m.size
  garbageSize := 0

instance : ByteStore Memory where
  get m k := .ok (m.index.bindings.get? k)
  set m k v := ⟨m.index.insert k v⟩
  delete m k := ⟨m.index.erase k⟩
  has m k := m.index.bindings.contains k
  scan m interval := m.index.range interval
  usage := usage

end Memory

end RelationalStore
