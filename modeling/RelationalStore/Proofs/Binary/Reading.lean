import RelationalStore.Binary.Basic
import RelationalStore.Proofs.Bytes.Basic

/-!
# Reading what was written

A reader reads a value off some bytes if it does so whatever follows them, and leaves
what follows, while it finds the bytes malformed where the last of them are missing. Both
parts are needed together: in a sequence of two readers the missing bytes may be those of
the second one, which starts where the first one has stopped.
-/

namespace RelationalStore

namespace Binary

/-- The number of bytes that memory holds, which no byte string can have. -/
def memorySize : Nat := 0x8000000000000000

/-- The reader gives the value and takes exactly the given bytes off the front, and it
gives nothing if there are fewer of them. -/
structure Reads {α : Type} (reader : Reader α) (bytes : Bytes) (a : α) : Prop where
  whole : ∀ rest, reader (bytes ++ rest) = .ok (a, rest)
  part : ∀ n < bytes.length, reader (bytes.take n) = .error malformed

namespace Reads

variable {α β : Type} {reader : Reader α} {bytes : Bytes} {a : α}

/-- A constant is read off nothing. -/
theorem pure (a : α) : Reads (pure a) [] a :=
  ⟨fun _ => rfl, fun _ hn => absurd hn (Nat.not_lt_zero _)⟩

/-- A value that is read off the first part decides how the second part is read. -/
theorem bind {next : α → Reader β} {bytes' : Bytes} {b : β} (h : Reads reader bytes a)
    (hnext : Reads (next a) bytes' b) : Reads (reader >>= next) (bytes ++ bytes') b := by
  constructor
  · intro rest
    have hfirst := h.whole (bytes' ++ rest)
    have hsecond := hnext.whole rest
    simp only [StateT.bind, Bind.bind, Except.bind, List.append_assoc, hfirst, hsecond]
  · intro n hn
    by_cases hcut : n < bytes.length
    · -- already the first part is not complete
      have htake : (bytes ++ bytes').take n = bytes.take n :=
        List.take_append_of_le_length (by omega)
      have hfirst := h.part n hcut
      simp only [StateT.bind, Bind.bind, Except.bind, htake, hfirst]
    · have htake : (bytes ++ bytes').take n = bytes ++ bytes'.take (n - bytes.length) := by
        rw [List.take_append, List.take_of_length_le (by omega)]
      have hfirst := h.whole (bytes'.take (n - bytes.length))
      rw [List.length_append] at hn
      have hsecond := hnext.part (n - bytes.length) (by omega)
      simp only [StateT.bind, Bind.bind, Except.bind, htake, hfirst, hsecond]

/-- What follows a value need not take any bytes. -/
theorem finish {next : α → Reader β} {b : β} (h : Reads reader bytes a)
    (hnext : Reads (next a) [] b) : Reads (reader >>= next) bytes b := by
  have hbind := h.bind hnext
  rwa [List.append_nil] at hbind

/-- A value that is read last is made into the result. -/
theorem map {f : α → β} (h : Reads reader bytes a) :
    Reads (reader >>= fun x => Pure.pure (f x)) bytes (f a) :=
  h.finish (Reads.pure (f a))

end Reads

/-- One byte is read off itself. -/
theorem takeByte_reads (b : UInt8) : Reads takeByte [b] b := by
  constructor
  · intro rest
    rfl
  · intro n hn
    obtain rfl : n = 0 := by simpa using hn
    rfl

/-- Bytes of the given number are read off themselves. -/
theorem take_reads {count : Nat} {bytes : Bytes} (h : bytes.length = count) :
    Reads (take count) bytes bytes := by
  constructor
  · intro rest
    have hsplit : Bytes.split? count (bytes ++ rest) = some (bytes, rest) :=
      Bytes.split?_eq_some_iff.mpr ⟨rfl, h⟩
    simp only [take, hsplit]
  · intro n hn
    have hsplit : Bytes.split? count (bytes.take n) = none := by
      refine Option.eq_none_iff_forall_ne_some.mpr fun ⟨first, rest⟩ hsome => ?_
      obtain ⟨hbytes, hfirst⟩ := Bytes.split?_eq_some_iff.mp hsome
      have hlength := congrArg List.length hbytes
      rw [List.length_take, List.length_append] at hlength
      omega
    simp only [take, hsplit]

/-- A byte is read, and what is read behind it depends on it. -/
theorem Reads.cons {β : Type} {next : UInt8 → Reader β} {b : UInt8} {bytes : Bytes} {a : β}
    (h : Reads (next b) bytes a) : Reads (takeByte >>= next) (b :: bytes) a :=
  (takeByte_reads b).bind h

/-- A number that its width has room for is read off its bytes. -/
theorem littleEndian_reads {width n : Nat} (h : n < Bytes.capacity width) :
    Reads (do return Bytes.ofLittleEndian (← take width)) (Bytes.littleEndian width n) n := by
  have hmap := (take_reads (Bytes.length_littleEndian width n)).map (f := Bytes.ofLittleEndian)
  rwa [Bytes.ofLittleEndian_littleEndian h] at hmap

/-- A number is read off its shortest form. -/
theorem readNat_reads {width n : Nat} (hn : n < UInt64.size)
    (hwidth : 8 ≤ width ∨ n < UInt32.size) : Reads (readNat width) (writeNat n) n := by
  unfold writeNat readNat
  split
  · next h =>
    have hbyte : (UInt8.ofNat n).toNat = n := by
      rw [UInt8.toNat_ofNat']
      omega
    refine Reads.cons ?_
    rw [if_pos (by omega), hbyte]
    exact Reads.pure n
  · split
    · exact Reads.cons (littleEndian_reads ‹_›)
    · split
      · exact Reads.cons (littleEndian_reads ‹_›)
      · next h =>
        refine Reads.cons ?_
        have hwide : 8 ≤ width := hwidth.resolve_right h
        simp only [hwide]
        exact littleEndian_reads hn

/-- A number below `2 ^ 32`, such as that of an alternative, is read in four bytes at most. -/
theorem readNat_four_reads {n : Nat} (h : n < UInt32.size) : Reads (readNat 4) (writeNat n) n :=
  readNat_reads (Nat.lt_trans h (by decide)) (.inr h)

/-- A number below `2 ^ 64`, such as a length, is read in eight bytes at most. -/
theorem readNat_eight_reads {n : Nat} (h : n < UInt64.size) : Reads (readNat 8) (writeNat n) n :=
  readNat_reads h (.inl (Nat.le_refl 8))

/-- The zigzag order of the integers loses none of them. -/
theorem unfold_fold (n : Int) : unfold (fold n) = n := by
  unfold fold unfold
  split
  · omega
  · omega

end Binary

end RelationalStore
