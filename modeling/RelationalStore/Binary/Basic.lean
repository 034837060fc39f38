import RelationalStore.Bytes.Basic
import RelationalStore.Collection.SortedMap
import RelationalStore.Error

/-!
# Binary forms

Each type that is stored has a binary form, written without a mark at its end and
read from the front of a byte string. Numbers take as few bytes as they need: one
below 251, and otherwise a byte that announces two, four or eight bytes, the lowest
first. A number with a sign is folded into one without: 0, -1, 1, -2 and so on
become 0, 1, 2, 3. A list is its length and its items, an alternative is its number
and its fields. The bytes of a text have to fit in a memory of `2 ^ 63` bytes, which
is looked at before they are.
-/

namespace RelationalStore

/-- A reader of values from the front of a byte string; it fails or leaves a rest. -/
abbrev Reader := StateT Bytes (Except Failure)

/-- The binary form of a type. -/
class Binary (α : Type) where
  write : α → Bytes
  read : Reader α

namespace Binary

/-- Why bytes are no value. -/
def malformed : Failure := .error (.decode "malformed value")

/-- A reader that always fails. -/
def fail {α : Type} : Reader α := fun _ => .error malformed

/-- Takes the given number of bytes. -/
def take (count : Nat) : Reader Bytes := fun input =>
  match Bytes.split? count input with
  | some taken => .ok taken
  | none => .error malformed

/-- Takes one byte. -/
def takeByte : Reader UInt8
  | [] => .error malformed
  | b :: rest => .ok (b, rest)

/-- Writes a number below `2 ^ 64` in as few bytes as possible. -/
def writeNat (n : Nat) : Bytes :=
  if n < 251 then [UInt8.ofNat n]
  else if n < UInt16.size then 251 :: Bytes.littleEndian 2 n
  else if n < UInt32.size then 252 :: Bytes.littleEndian 4 n
  else 253 :: Bytes.littleEndian 8 n

/-- Reads a number of at most the given width in bytes, which is four or eight. It
may be written in more bytes than it needs. -/
def readNat (width : Nat) : Reader Nat := do
  let first ← takeByte
  if first.toNat < 251 then return first.toNat
  else if first = 251 then return Bytes.ofLittleEndian (← take 2)
  else if first = 252 then return Bytes.ofLittleEndian (← take 4)
  else if first = 253 ∧ 8 ≤ width then return Bytes.ofLittleEndian (← take 8)
  else fail

/-- Folds a number with a sign into one without. -/
def fold (n : Int) : Nat :=
  if 0 ≤ n then 2 * n.toNat else 2 * (-n).toNat - 1

/-- Undoes the folding. -/
def unfold (n : Nat) : Int :=
  if n % 2 = 0 then (n / 2 : Nat) else -((n / 2 : Nat) : Int) - 1

/-- Reads so many values. -/
def readMany {α : Type} (item : Reader α) : Nat → Reader (List α)
  | 0 => return []
  | n + 1 => do
    let first ← item
    let rest ← readMany item n
    return first :: rest

instance : Binary UInt32 where
  write n := writeNat n.toNat
  read := return UInt32.ofNat (← readNat 4)

instance : Binary UInt64 where
  write n := writeNat n.toNat
  read := return UInt64.ofNat (← readNat 8)

instance : Binary Int64 where
  write n := writeNat (fold n.toInt)
  read := return Int64.ofInt (unfold (← readNat 8))

instance : Binary Bool where
  write b := [if b then 1 else 0]
  read := do
    let b ← takeByte
    if b = 0 then return false
    else if b = 1 then return true
    else fail

/-- Reads the length of a text, which has to be that of a text in memory. -/
def readTextLength : Reader Nat := do
  let length ← readNat 8
  if length < 0x8000000000000000 then return length else fun _ => .error .boundlessText

instance : Binary String where
  write s := writeNat (Bytes.ofText s).length ++ Bytes.ofText s
  read := do
    let length ← readTextLength
    let bytes ← take length
    match Bytes.toText? bytes with
    | some s => return s
    | none => fail

instance {α : Type} [Binary α] : Binary (List α) where
  write l := writeNat l.length ++ l.flatMap write
  read := do
    let length ← readNat 8
    readMany read length

instance {α : Type} [Binary α] : Binary (Option α) where
  write
    | none => [0]
    | some a => 1 :: write a
  read := do
    let b ← takeByte
    if b = 0 then return none
    else if b = 1 then return some (← read)
    else fail

instance {α β : Type} [Binary α] [Binary β] : Binary (α × β) where
  write p := write p.1 ++ write p.2
  read := return (← read, ← read)

instance : Binary NameSet where
  write names := write names.keys
  read := return NameSet.ofNames (← read)

/-- Reads a value from the front of a byte string; what follows it is ignored. -/
def decode {α : Type} [Binary α] (input : Bytes) : Except Failure α :=
  match (read : Reader α) input with
  | .ok (a, _) => .ok a
  | .error f => .error f

end Binary

end RelationalStore
