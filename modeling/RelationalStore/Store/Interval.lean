import RelationalStore.Bytes.Basic
import RelationalStore.Collection.SortedMap
import RelationalStore.Error

/-!
# Intervals of keys

Keys are byte strings in lexicographic order. An interval is improper when it ends
before it starts, or when it excludes both ends and they are equal. Asking for an
improper interval is a failure, except of an index that has never held a key.
-/

namespace RelationalStore

/-- A key of a byte store. -/
abbrev Key := Bytes

/-- One end of an interval. -/
inductive Bound where
  | unbounded
  | included (key : Key)
  | excluded (key : Key)
  deriving DecidableEq, Repr

/-- A range of keys. -/
structure Interval where
  lower : Bound
  upper : Bound
  deriving DecidableEq, Repr

namespace Interval

/-- Whether a key lies above the lower end. -/
def aboveLower (interval : Interval) (k : Key) : Bool :=
  match interval.lower with
  | .unbounded => true
  | .included lo => (compare lo k).isLE
  | .excluded lo => (compare lo k).isLT

/-- Whether a key lies below the upper end. -/
def belowUpper (interval : Interval) (k : Key) : Bool :=
  match interval.upper with
  | .unbounded => true
  | .included hi => (compare k hi).isLE
  | .excluded hi => (compare k hi).isLT

/-- Whether a key lies in the interval. -/
def contains (interval : Interval) (k : Key) : Bool :=
  interval.aboveLower k && interval.belowUpper k

/-- Whether the interval ends before it starts, or excludes its only point twice. -/
def improper : Interval → Bool
  | ⟨.excluded lo, .excluded hi⟩ => (compare lo hi).isGE
  | ⟨.included lo, .included hi⟩ => (compare lo hi).isGT
  | ⟨.included lo, .excluded hi⟩ => (compare lo hi).isGT
  | ⟨.excluded lo, .included hi⟩ => (compare lo hi).isGT
  | _ => false

/-- The least byte string above all that start with the given one: its last byte
below 255 is raised by one and what follows is dropped. There is none if all its
bytes are 255. -/
def firstBeyond? : Bytes → Option Bytes
  | [] => none
  | b :: rest =>
    match firstBeyond? rest with
    | some above => some (b :: above)
    | none => if b = 255 then none else some [b + 1]

/-- The interval of the keys that start with the given bytes. -/
def startingWith (start : Bytes) : Interval :=
  ⟨.included start,
    match firstBeyond? start with
    | some above => .excluded above
    | none => .unbounded⟩

end Interval

/-- A sorted index of keys that remembers whether it has ever held one. -/
structure KeyIndex (α : Type) where
  bindings : SortedMap Key α
  /-- Whether a key has been bound since the index was made. -/
  used : Bool
  deriving DecidableEq

namespace KeyIndex

variable {α : Type}

/-- A new index. -/
def empty : KeyIndex α := ⟨SortedMap.empty, false⟩

/-- Binds a key. -/
def insert (index : KeyIndex α) (k : Key) (a : α) : KeyIndex α :=
  ⟨index.bindings.insert k a, true⟩

/-- Unbinds a key. -/
def erase (index : KeyIndex α) (k : Key) : KeyIndex α :=
  { index with bindings := index.bindings.erase k }

/-- The entries whose keys lie in an interval, ascending. An index that has never
held a key has none in any interval, proper or not. -/
def range (index : KeyIndex α) (interval : Interval) : Except Failure (List (Key × α)) :=
  if index.used && interval.improper then .error .improperInterval
  else .ok (index.bindings.entries.filter fun e => interval.contains e.1)

end KeyIndex

end RelationalStore
