/-!
# Byte strings

Byte strings are lists of bytes. Numbers are laid out in them with a fixed width,
the lowest byte first or last; a number that is too large loses its high bytes.
-/

namespace RelationalStore

/-- A byte string. -/
abbrev Bytes := List UInt8

namespace Bytes

/-- The number in the given number of bytes, the lowest byte first. -/
def littleEndian : Nat → Nat → Bytes
  | 0, _ => []
  | width + 1, n => UInt8.ofNat n :: littleEndian width (n / 256)

/-- The number that bytes stand for, the lowest byte first. -/
def ofLittleEndian : Bytes → Nat
  | [] => 0
  | b :: rest => b.toNat + 256 * ofLittleEndian rest

/-- The number in the given number of bytes, the lowest byte last. -/
def bigEndian (width n : Nat) : Bytes :=
  (littleEndian width n).reverse

/-- The number that bytes stand for, the lowest byte last. -/
def ofBigEndian (bytes : Bytes) : Nat :=
  ofLittleEndian bytes.reverse

/-- The first bytes of a string and the rest, if it has so many. -/
def split? (count : Nat) (bytes : Bytes) : Option (Bytes × Bytes) :=
  let first := bytes.take count
  if first.length = count then some (first, bytes.drop count) else none

/-- The bytes of a text in UTF-8. -/
def ofText (text : String) : Bytes :=
  text.toByteArray.data.toList

/-- The text that bytes are in UTF-8, if they are one. -/
def toText? (bytes : Bytes) : Option String :=
  String.fromUTF8? ⟨bytes.toArray⟩

/-- A number takes as many bytes as its width says, the least significant one first. -/
theorem length_littleEndian (width n : Nat) : (littleEndian width n).length = width := by
  induction width generalizing n with
  | zero => rfl
  | succ width ih => simp [littleEndian, ih]

/-- A byte string is split into the parts that make it up. -/
theorem split?_eq_some_iff {count : Nat} {bytes first rest : Bytes} :
    split? count bytes = some (first, rest) ↔ bytes = first ++ rest ∧ first.length = count := by
  simp only [split?]
  constructor
  · intro h
    split at h
    · next hlength =>
      obtain ⟨rfl, rfl⟩ := Prod.mk.injEq .. ▸ Option.some.injEq .. ▸ h
      exact ⟨(List.take_append_drop count bytes).symm, hlength⟩
    · cases h
  · rintro ⟨rfl, rfl⟩
    simp

/-- A number takes as many bytes as its width says, the most significant one first. -/
theorem length_bigEndian (width n : Nat) : (bigEndian width n).length = width := by
  simp [bigEndian, length_littleEndian]

end Bytes

end RelationalStore
