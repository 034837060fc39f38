import RelationalStore.Store.Interval

/-!
# Entries of a log

An entry records that a key is bound to a value or unbound. It is laid out as a
checksum of eight bytes, a time stamp of four, the length of the key in four, the
length of the value in four, the key and the value, all lengths with the highest
byte first. Instead of the length of a value, an entry that unbinds has four bytes
255. The checksum covers all that follows it.
-/

namespace RelationalStore

/-- A checksum of byte strings. -/
abbrev Checksum := Bytes → UInt64

/-- A record of one change. -/
structure Entry where
  /-- The time of the change. -/
  stamp : UInt32
  key : Key
  /-- What the key is bound to; none if it is unbound. -/
  value : Option Bytes
  deriving DecidableEq, Repr

namespace Entry

/-- The number of bytes before the key. -/
def headerSize : Nat := 20

/-- The number that stands for the length of the value: the length itself in 32 bits,
or all bits set for an entry that unbinds. -/
def valueField : Option Bytes → Nat
  | some v => v.length
  | none => UInt32.size - 1

/-- What the checksum covers. -/
def body (e : Entry) : Bytes :=
  Bytes.bigEndian 4 e.stamp.toNat ++ Bytes.bigEndian 4 e.key.length ++
    Bytes.bigEndian 4 (valueField e.value) ++ e.key ++ e.value.getD []

/-- The layout of an entry. -/
def bytes (checksum : Checksum) (e : Entry) : Bytes :=
  Bytes.bigEndian 8 (checksum e.body).toNat ++ e.body

/-- The number of bytes that an entry takes. -/
def size (e : Entry) : Nat :=
  headerSize + e.key.length + (e.value.getD []).length

/-- The length of the value that a field announces, or none for an entry that
unbinds; the outer none stands for a field that announces neither. -/
def announced? (field : Nat) : Option (Option Nat) :=
  if field < 0x80000000 then some (some field)
  else if field = UInt32.size - 1 then some none
  else none

/-- Reads the entry at the start of a byte string, with its checksum unchecked. There
is none if the string is too short for the header or for the lengths it announces,
or if it announces no proper length. -/
def parse? (input : Bytes) : Option (UInt64 × Entry × Bytes) := do
  let (sum, input) ← Bytes.split? 8 input
  let (stamp, input) ← Bytes.split? 4 input
  let (keyField, input) ← Bytes.split? 4 input
  let (valueField, input) ← Bytes.split? 4 input
  let announced ← announced? (Bytes.ofBigEndian valueField)
  let (key, input) ← Bytes.split? (Bytes.ofBigEndian keyField) input
  let (value, rest) ← Bytes.split? (announced.getD 0) input
  return (UInt64.ofNat (Bytes.ofBigEndian sum),
    ⟨UInt32.ofNat (Bytes.ofBigEndian stamp), key, announced.map fun _ => value⟩, rest)

/-- Reads the entry at the start of a byte string, if its checksum is right. -/
def read? (checksum : Checksum) (input : Bytes) : Option (Entry × Bytes) :=
  match parse? input with
  | some (sum, e, rest) => if sum = checksum e.body then some (e, rest) else none
  | none => none

/-- Reading takes the whole header off. -/
theorem length_of_parse? {input rest : Bytes} {sum : UInt64} {e : Entry}
    (h : parse? input = some (sum, e, rest)) : rest.length + headerSize ≤ input.length := by
  simp only [parse?, bind, Option.bind_eq_some_iff, Prod.exists, pure] at h
  obtain ⟨a, r₁, h₁, b, r₂, h₂, c, r₃, h₃, d, r₄, h₄, n, -, k, r₅, h₅, v, r₆, h₆, h⟩ := h
  obtain ⟨-, -, rfl⟩ : _ ∧ _ ∧ r₆ = rest := by simpa using h
  obtain ⟨rfl, ha⟩ := Bytes.split?_eq_some_iff.mp h₁
  obtain ⟨rfl, hb⟩ := Bytes.split?_eq_some_iff.mp h₂
  obtain ⟨rfl, hc⟩ := Bytes.split?_eq_some_iff.mp h₃
  obtain ⟨rfl, hd⟩ := Bytes.split?_eq_some_iff.mp h₄
  obtain ⟨rfl, -⟩ := Bytes.split?_eq_some_iff.mp h₅
  obtain ⟨rfl, -⟩ := Bytes.split?_eq_some_iff.mp h₆
  simp only [List.length_append, headerSize]
  omega

/-- What is left after an entry is shorter. -/
theorem length_lt_of_read? {checksum : Checksum} {input rest : Bytes} {e : Entry}
    (h : read? checksum input = some (e, rest)) : rest.length < input.length := by
  unfold read? at h
  split at h
  · next sum e' rest' hparse =>
    split at h
    · obtain ⟨-, rfl⟩ := Prod.mk.injEq .. ▸ Option.some.injEq .. ▸ h
      have := length_of_parse? hparse
      simp only [headerSize] at this
      omega
    · cases h
  · cases h

end Entry

end RelationalStore
