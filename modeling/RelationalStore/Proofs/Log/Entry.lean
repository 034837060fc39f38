import RelationalStore.Log.Entry
import RelationalStore.Proofs.Bytes.Basic

/-!
# Reading entries back

An entry can be read from the start of a byte string exactly if it stands there, whatever
follows it. This needs that its lengths have room in their fields. So no entry is the
beginning of another one, and a part of an entry is never taken for an entry.
-/

namespace RelationalStore

namespace Entry

/-- The number of bytes that no value may reach. -/
def valueLimit : Nat := 0x80000000

/-- The lengths of the entry have room in their fields. -/
structure Fits (e : Entry) : Prop where
  key : e.key.length < UInt32.size
  value : ∀ v, e.value = some v → v.length < valueLimit

variable {checksum : Checksum} {e e' : Entry} {input rest : Bytes} {sum : UInt64}

/-- The field of a value announces its length. -/
theorem announced?_valueField {value : Option Bytes}
    (h : ∀ v, value = some v → v.length < valueLimit) :
    announced? (valueField value) = some (value.map List.length) := by
  cases value with
  | none => rfl
  | some v =>
    have hlength : v.length < 0x80000000 := h v rfl
    simp only [announced?, valueField, hlength, if_true, Option.map_some]

/-- What announces the length of a value is its field. -/
theorem valueField_of_announced? {field : Nat} {value : Option Bytes}
    (h : announced? field = some (value.map List.length)) :
    valueField value = field ∧ ∀ v, value = some v → v.length < valueLimit := by
  unfold announced? at h
  split at h
  · next hfield =>
    cases value with
    | none => simp at h
    | some v =>
      simp only [Option.map_some, Option.some.injEq] at h
      refine ⟨h.symm, fun w hw => ?_⟩
      obtain rfl := Option.some.inj hw
      exact h ▸ hfield
  · split at h
    · next hfield =>
      cases value with
      | none => exact ⟨hfield.symm, by simp⟩
      | some v => simp at h
    · cases h

/-- A length that has room, or the mark for no value, fits the width of the field. -/
theorem Fits.valueField_lt (h : e.Fits) : valueField e.value < UInt32.size := by
  cases hvalue : e.value with
  | none => decide
  | some v => exact Nat.lt_trans (h.value v hvalue) (by decide)

/-- An entry takes as many bytes as its size says. -/
theorem length_bytes (e : Entry) : (e.bytes checksum).length = e.size := by
  simp only [bytes, body, size, headerSize, List.length_append, Bytes.length_bigEndian]
  omega

/-- An entry is read off a string with a checksum in front of it, and off no other. -/
theorem parse?_eq_some_iff : parse? input = some (sum, e, rest) ↔
    e.Fits ∧ input = Bytes.bigEndian 8 sum.toNat ++ e.body ++ rest := by
  simp only [parse?, bind, Option.bind_eq_some_iff, Prod.exists, pure,
    Bytes.split?_eq_some_iff]
  constructor
  · rintro ⟨a, _, ⟨rfl, ha⟩, b, _, ⟨rfl, hb⟩, c, _, ⟨rfl, hc⟩, d, _, ⟨rfl, hd⟩, n, hn, k, _,
      ⟨rfl, hk⟩, v, _, ⟨rfl, hv⟩, h⟩
    obtain ⟨rfl, rfl, rfl⟩ := by simpa only [Option.some.injEq, Prod.mk.injEq] using h
    have hlengths : (n.map fun _ => v).map List.length = n := by
      cases n with
      | none => rfl
      | some m => simpa using hv
    have hempty : (n.map fun _ => v).getD [] = v := by
      cases n with
      | none => exact (List.eq_nil_of_length_eq_zero hv).symm
      | some m => rfl
    obtain ⟨hfield, hvalue⟩ := valueField_of_announced? (hlengths.symm ▸ hn)
    have hsum : (UInt64.ofNat (Bytes.ofBigEndian a)).toNat = Bytes.ofBigEndian a :=
      UInt64.toNat_ofNat_of_lt' (Bytes.ofBigEndian_lt ha)
    have hstamp : (UInt32.ofNat (Bytes.ofBigEndian b)).toNat = Bytes.ofBigEndian b :=
      UInt32.toNat_ofNat_of_lt' (Bytes.ofBigEndian_lt hb)
    refine ⟨⟨hk ▸ Bytes.ofBigEndian_lt hc, hvalue⟩, ?_⟩
    simp only [body, hfield, hempty, hsum, hstamp, hk, Bytes.bigEndian_ofBigEndian ha,
      Bytes.bigEndian_ofBigEndian hb, Bytes.bigEndian_ofBigEndian hc,
      Bytes.bigEndian_ofBigEndian hd, List.append_assoc]
  · rintro ⟨hfits, rfl⟩
    have hkey : Bytes.ofBigEndian (Bytes.bigEndian 4 e.key.length) = e.key.length :=
      Bytes.ofBigEndian_bigEndian hfits.key
    have hfield := hfits.valueField_lt
    have hannounced := announced?_valueField hfits.value
    have hlength : (e.value.getD []).length = (e.value.map List.length).getD 0 := by
      cases e.value <;> rfl
    refine ⟨_, _, ⟨by simp only [body, List.append_assoc]; rfl, Bytes.length_bigEndian 8 _⟩,
      _, _, ⟨rfl, Bytes.length_bigEndian 4 _⟩, _, _, ⟨rfl, Bytes.length_bigEndian 4 _⟩,
      _, _, ⟨rfl, Bytes.length_bigEndian 4 _⟩, _, ?_, _, _, ⟨rfl, hkey.symm⟩,
      _, _, ⟨rfl, hlength⟩, ?_⟩
    · rw [Bytes.ofBigEndian_bigEndian hfield, hannounced]
    · have hsum : UInt64.ofNat (Bytes.ofBigEndian (Bytes.bigEndian 8 sum.toNat)) = sum := by
        rw [Bytes.ofBigEndian_bigEndian sum.toNat_lt, UInt64.ofNat_toNat]
      have hstamp :
          UInt32.ofNat (Bytes.ofBigEndian (Bytes.bigEndian 4 e.stamp.toNat)) = e.stamp := by
        rw [Bytes.ofBigEndian_bigEndian e.stamp.toNat_lt, UInt32.ofNat_toNat]
      have hvalue : ((e.value.map List.length).map fun _ => e.value.getD []) = e.value := by
        cases e.value <;> rfl
      rw [hsum, hstamp, hvalue]

/-- An entry is read off a string exactly if it stands at the start. -/
theorem read?_eq_some_iff :
    read? checksum input = some (e, rest) ↔ e.Fits ∧ input = e.bytes checksum ++ rest := by
  unfold read?
  constructor
  · intro h
    split at h
    · next sum found tail hparse =>
      split at h
      · next hsum =>
        obtain ⟨rfl, rfl⟩ := Prod.mk.injEq .. ▸ Option.some.injEq .. ▸ h
        obtain ⟨hfits, rfl⟩ := parse?_eq_some_iff.mp hparse
        exact ⟨hfits, by rw [bytes, hsum]⟩
      · cases h
    · cases h
  · intro h
    rw [parse?_eq_some_iff.mpr h]
    exact if_pos rfl

/-- No entry is read off a part of an entry. -/
theorem read?_take_eq_none {n : Nat} (hfits : e.Fits) (hn : n < e.size) :
    read? checksum ((e.bytes checksum).take n) = none := by
  refine Option.eq_none_iff_forall_ne_some.mpr fun ⟨found, tail⟩ hread => ?_
  -- what is read off the part would also be read off the whole, where the entry is read
  obtain ⟨hfound, hpart⟩ := read?_eq_some_iff.mp hread
  have hwhole : read? checksum (e.bytes checksum) =
      some (found, tail ++ (e.bytes checksum).drop n) := by
    refine read?_eq_some_iff.mpr ⟨hfound, ?_⟩
    rw [← List.append_assoc, ← hpart, List.take_append_drop]
  have hitself : read? checksum (e.bytes checksum) = some (e, []) :=
    read?_eq_some_iff.mpr ⟨hfits, (List.append_nil _).symm⟩
  obtain ⟨rfl, htail⟩ := Prod.mk.injEq .. ▸ Option.some.injEq .. ▸ hwhole.symm.trans hitself
  have hlength := congrArg List.length htail
  rw [List.length_append, List.length_drop, length_bytes, List.length_nil] at hlength
  omega

/-- What stands in front of the key. -/
def header (checksum : Checksum) (e : Entry) : Bytes :=
  Bytes.bigEndian 8 (checksum e.body).toNat ++ Bytes.bigEndian 4 e.stamp.toNat ++
    Bytes.bigEndian 4 e.key.length ++ Bytes.bigEndian 4 (valueField e.value)

/-- The header of an entry has the same length whatever the entry is. -/
theorem length_header : (e.header checksum).length = headerSize := by
  simp only [header, List.length_append, Bytes.length_bigEndian, headerSize]

/-- Behind its header an entry is its key and then its value. -/
theorem bytes_eq_header_append :
    e.bytes checksum = e.header checksum ++ (e.key ++ e.value.getD []) := by
  simp only [bytes, body, header, List.append_assoc]

/-- An entry that is read has the header that stands at the start. -/
theorem header_eq_of_read? {found : Entry} {tail : Bytes}
    (h : read? checksum (e.header checksum ++ rest) = some (found, tail)) :
    found.header checksum = e.header checksum := by
  obtain ⟨_, hinput⟩ := read?_eq_some_iff.mp h
  rw [bytes_eq_header_append, List.append_assoc] at hinput
  exact (List.append_inj hinput (length_header.trans length_header.symm)).1.symm

/-- The same header has the same two fields for the lengths. -/
theorem fields_of_header_eq (h : e.header checksum = e'.header checksum) :
    Bytes.bigEndian 4 e.key.length = Bytes.bigEndian 4 e'.key.length ∧
      Bytes.bigEndian 4 (valueField e.value) = Bytes.bigEndian 4 (valueField e'.value) := by
  have hlength (m n : Nat) : (Bytes.bigEndian 4 m).length = (Bytes.bigEndian 4 n).length := by
    rw [Bytes.length_bigEndian, Bytes.length_bigEndian]
  obtain ⟨hfront, hvalue⟩ := List.append_inj' h (hlength _ _)
  obtain ⟨_, hkey⟩ := List.append_inj' hfront (hlength _ _)
  exact ⟨hkey, hvalue⟩

/-- Entries that fit and have the same header are of one size. -/
theorem Fits.size_eq (h : e.Fits) (h' : e'.Fits) (hheader : e.header checksum = e'.header checksum) :
    e.size = e'.size := by
  obtain ⟨hkeys, hvalues⟩ := fields_of_header_eq hheader
  have hkey : e.key.length = e'.key.length := by
    have hnumber := congrArg Bytes.ofBigEndian hkeys
    rwa [Bytes.ofBigEndian_bigEndian h.key, Bytes.ofBigEndian_bigEndian h'.key] at hnumber
  have hfield : valueField e.value = valueField e'.value := by
    have hnumber := congrArg Bytes.ofBigEndian hvalues
    rwa [Bytes.ofBigEndian_bigEndian h.valueField_lt,
      Bytes.ofBigEndian_bigEndian h'.valueField_lt] at hnumber
  have hvalue : e.value.map List.length = e'.value.map List.length := by
    have hannounced := announced?_valueField h.value
    rw [hfield, announced?_valueField h'.value] at hannounced
    exact (Option.some.inj hannounced).symm
  have hlength (value : Option Bytes) :
      (value.getD []).length = (value.map List.length).getD 0 := by
    cases value <;> rfl
  rw [size, size, hkey, hlength, hlength, hvalue]

/-- No entry is read where the field of a value announces no length. -/
theorem read?_eq_none_of_valueField (hfield : valueField e.value < UInt32.size)
    (hnone : announced? (valueField e.value) = none) :
    read? checksum (e.bytes checksum ++ rest) = none := by
  refine Option.eq_none_iff_forall_ne_some.mpr fun ⟨found, tail⟩ hread => ?_
  obtain ⟨hfits, _⟩ := read?_eq_some_iff.mp hread
  have hannounced := announced?_valueField hfits.value
  rw [bytes_eq_header_append, List.append_assoc] at hread
  obtain ⟨_, hsame⟩ := fields_of_header_eq (header_eq_of_read? hread)
  have hnumber := congrArg Bytes.ofBigEndian hsame
  rw [Bytes.ofBigEndian_bigEndian hfits.valueField_lt,
    Bytes.ofBigEndian_bigEndian hfield] at hnumber
  rw [hnumber, hnone] at hannounced
  cases hannounced

/-- No entry is read where a whole header stands, but fewer bytes than it announces. -/
theorem read?_take_append_eq_none {n : Nat} (hfits : e.Fits) (hheader : headerSize ≤ n)
    (hshort : n + rest.length < e.size) :
    read? checksum ((e.bytes checksum).take n ++ rest) = none := by
  refine Option.eq_none_iff_forall_ne_some.mpr fun ⟨found, tail⟩ hread => ?_
  obtain ⟨hfound, hinput⟩ := read?_eq_some_iff.mp hread
  have hlength := congrArg List.length hinput
  rw [List.length_append, List.length_append, List.length_take, length_bytes, length_bytes]
    at hlength
  have hwhole : (e.bytes checksum).take n = e.header checksum ++
      (e.key ++ e.value.getD []).take (n - headerSize) := by
    rw [bytes_eq_header_append, List.take_append, length_header,
      List.take_of_length_le (length_header ▸ hheader)]
  rw [hwhole, List.append_assoc] at hread
  have hsize := hfound.size_eq hfits (header_eq_of_read? hread)
  omega

end Entry

end RelationalStore
