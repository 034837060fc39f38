import RelationalStore.Log.Entry

/-!
# Recovering the state of a log

The entries of a log are read from its start up to the first place where no entry
with a right checksum stands. Going through them in order, the last change of each
key wins. What follows the last entry is of no use and is cut off.
-/

namespace RelationalStore

/-- Where the value of a key stands. -/
structure Slot where
  /-- Where the entry starts. -/
  start : Nat
  /-- The length of the value, in 32 bits. -/
  size : UInt32
  deriving DecidableEq, Repr

namespace Recovery

/-- The entries at the start of a byte string. -/
def entries (checksum : Checksum) (input : Bytes) : List Entry :=
  match h : Entry.read? checksum input with
  | none => []
  | some (e, rest) =>
    have : rest.length < input.length := Entry.length_lt_of_read? h
    e :: entries checksum rest
termination_by input.length

/-- The index after one more entry, which starts at the given place. -/
def applyEntry (state : KeyIndex Slot × Nat) (e : Entry) : KeyIndex Slot × Nat :=
  (match e.value with
    | some v => state.1.insert e.key ⟨state.2, UInt32.ofNat v.length⟩
    | none => state.1.erase e.key,
    state.2 + e.size)

/-- The index that entries build up, and the place where the last of them ends. -/
def replay (list : List Entry) : KeyIndex Slot × Nat :=
  list.foldl applyEntry (KeyIndex.empty, 0)

end Recovery

end RelationalStore
