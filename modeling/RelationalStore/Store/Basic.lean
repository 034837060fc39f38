import RelationalStore.Store.Interval

/-!
# Byte stores

A byte store binds keys to byte strings. Writing always succeeds. Reading may fail,
as the bytes may be gone from where the store keeps them.
-/

namespace RelationalStore

/-- The space that a byte store takes, in bytes. -/
structure Usage where
  /-- The name of the kind of store. -/
  name : String
  /-- The keys and values that are bound. -/
  logicalSize : Nat
  /-- The number of keys. -/
  totalCount : Nat
  /-- All that is kept. -/
  totalSize : Nat
  /-- The part that is needed for what is bound. -/
  liveSize : Nat
  /-- The part that is not needed any more. -/
  garbageSize : Nat
  deriving DecidableEq, Repr

/-- The percentage of the space that is not needed any more. -/
def Usage.garbageRate (u : Usage) : Float :=
  if u.totalSize = 0 then 0
  else u.garbageSize.toUInt64.toFloat / u.totalSize.toUInt64.toFloat * 100

/-- A place where byte strings are kept under keys. -/
class ByteStore (σ : Type) where
  /-- What a key is bound to. -/
  get : σ → Key → Except Error (Option Bytes)
  /-- Binds a key. -/
  set : σ → Key → Bytes → σ
  /-- Unbinds a key. -/
  delete : σ → Key → σ
  /-- Whether a key is bound. -/
  has : σ → Key → Bool
  /-- The bindings in an interval of keys, ascending. -/
  scan : σ → Interval → Except Failure (List (Key × Bytes))
  /-- The space taken. -/
  usage : σ → Usage

/-- The bindings whose keys start with the given bytes, ascending. -/
def ByteStore.scanStart {σ : Type} [ByteStore σ] (store : σ) (start : Bytes) :
    Except Failure (List (Key × Bytes)) :=
  scan store (Interval.startingWith start)

end RelationalStore
