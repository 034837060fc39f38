import RelationalStore.Bytes.Basic

/-!
# Numbers and texts in byte strings

A number that is below the capacity of its width is found again in its bytes, and so is
every text.
-/

namespace RelationalStore

namespace Bytes

/-- The number of numbers that fit into the given number of bytes. -/
def capacity : Nat → Nat
  | 0 => 1
  | width + 1 => 256 * capacity width

/-- A number that its width has room for is got back from its bytes, the least significant one
first. -/
theorem ofLittleEndian_littleEndian {width n : Nat} (h : n < capacity width) :
    ofLittleEndian (littleEndian width n) = n := by
  induction width generalizing n with
  | zero =>
    have hzero : n = 0 := by simpa [capacity] using h
    simp [littleEndian, ofLittleEndian, hzero]
  | succ width ih =>
    have hrest : n / 256 < capacity width := by
      rw [capacity] at h
      omega
    simp only [littleEndian, ofLittleEndian, ih hrest, UInt8.toNat_ofNat']
    omega

/-- The bytes of a number are found again in it. -/
theorem littleEndian_ofLittleEndian (bytes : Bytes) :
    littleEndian bytes.length (ofLittleEndian bytes) = bytes := by
  induction bytes with
  | nil => rfl
  | cons b rest ih =>
    have hb := b.toNat_lt
    have hfirst : UInt8.ofNat (ofLittleEndian (b :: rest)) = b := by
      refine UInt8.toNat_inj.mp ?_
      simp only [ofLittleEndian, UInt8.toNat_ofNat']
      omega
    have hrest : ofLittleEndian (b :: rest) / 256 = ofLittleEndian rest := by
      simp only [ofLittleEndian]
      omega
    rw [List.length_cons, littleEndian, hfirst, hrest, ih]

/-- Bytes stand for a number that their width has room for. -/
theorem ofLittleEndian_lt (bytes : Bytes) : ofLittleEndian bytes < capacity bytes.length := by
  induction bytes with
  | nil => exact Nat.one_pos
  | cons b rest ih =>
    have hb := b.toNat_lt
    simp only [ofLittleEndian, List.length_cons, capacity]
    omega

/-- A number that its width has room for is got back from its bytes, the most significant one
first. -/
theorem ofBigEndian_bigEndian {width n : Nat} (h : n < capacity width) :
    ofBigEndian (bigEndian width n) = n := by
  rw [ofBigEndian, bigEndian, List.reverse_reverse, ofLittleEndian_littleEndian h]

/-- Bytes are got back from the number for which they stand. -/
theorem bigEndian_ofBigEndian {width : Nat} {bytes : Bytes} (h : bytes.length = width) :
    bigEndian width (ofBigEndian bytes) = bytes := by
  have hreverse := littleEndian_ofLittleEndian bytes.reverse
  rw [List.length_reverse, h] at hreverse
  rw [bigEndian, ofBigEndian, hreverse, List.reverse_reverse]

/-- Bytes stand for a number that their width has room for, whichever end comes first. -/
theorem ofBigEndian_lt {width : Nat} {bytes : Bytes} (h : bytes.length = width) :
    ofBigEndian bytes < capacity width := by
  have hlt := ofLittleEndian_lt bytes.reverse
  rwa [List.length_reverse, h] at hlt

/-- A text is got back from its bytes. -/
@[simp] theorem toText?_ofText (text : String) : toText? (ofText text) = some text := by
  simp [toText?, ofText, String.fromUTF8?, text.isValidUTF8]
  rfl

/-- Different texts have different bytes. -/
theorem ofText_injective {text text' : String} (h : ofText text = ofText text') :
    text = text' := by
  have hread : toText? (ofText text) = some text' := h ▸ toText?_ofText text'
  exact Option.some.inj ((toText?_ofText text).symm.trans hread)

end Bytes

end RelationalStore
