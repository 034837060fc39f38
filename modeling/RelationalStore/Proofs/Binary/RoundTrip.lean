import Mathlib.Data.List.Flatten
import RelationalStore.Binary.Table
import RelationalStore.Proofs.Binary.Reading
import RelationalStore.Proofs.Collection.SortedMap

/-!
# Lawful binary forms

Every value whose form fits in memory is read off its form. For a list this needs that
no item has an empty form, as its length could otherwise be anything. The forms of
tables are put together from those of their parts, and take no more bytes than before
when items are left out of a list.
-/

namespace RelationalStore

namespace Binary

/-- No form is empty, and a value whose form fits in memory is read off it. -/
class Lawful (α : Type) [Binary α] : Prop where
  write_ne_nil : ∀ a : α, write a ≠ []
  reads : ∀ a : α, (write a).length < memorySize → Reads read (write a) a

section

variable {α β : Type} [Binary α] [Lawful α] {a : α} {bytes : Bytes} {b : β}

/-- The first of several fields is read off the front. -/
theorem reads_bind {next : α → Reader β} (hsize : (write a ++ bytes).length < memorySize)
    (hnext : bytes.length < memorySize → Reads (next a) bytes b) :
    Reads (read >>= next) (write a ++ bytes) b := by
  rw [List.length_append] at hsize
  have hfirst : (write a).length < memorySize := by omega
  have hrest : bytes.length < memorySize := by omega
  exact (Lawful.reads a hfirst).bind (hnext hrest)

/-- The last field is read off what remains. -/
theorem reads_map {f : α → β} (hsize : (write a).length < memorySize) :
    Reads (read >>= fun x => pure (f x)) (write a) (f a) :=
  (Lawful.reads a hsize).map

end

/-- The form of a number has a first byte. -/
theorem writeNat_ne_nil (n : Nat) : writeNat n ≠ [] := by
  unfold writeNat
  split
  · simp
  · split
    · simp
    · split
      · simp
      · simp

/-- The number of an alternative is read off the front, and decides how its fields are. -/
theorem reads_numbered {β : Type} {next : Nat → Reader β} {number : Nat} {bytes : Bytes} {b : β}
    (hnumber : number < UInt32.size) (hsize : (writeNat number ++ bytes).length < memorySize)
    (hnext : bytes.length < memorySize → Reads (next number) bytes b) :
    Reads (readNat 4 >>= next) (writeNat number ++ bytes) b := by
  rw [List.length_append] at hsize
  have hrest : bytes.length < memorySize := by omega
  exact (readNat_four_reads hnumber).bind (hnext hrest)

instance : Lawful UInt32 where
  write_ne_nil n := writeNat_ne_nil n.toNat
  reads n _ := by
    have hmap := (readNat_four_reads n.toNat_lt).map (f := UInt32.ofNat)
    rwa [UInt32.ofNat_toNat] at hmap

instance : Lawful UInt64 where
  write_ne_nil n := writeNat_ne_nil n.toNat
  reads n _ := by
    have hmap := (readNat_eight_reads n.toNat_lt).map (f := UInt64.ofNat)
    rwa [UInt64.ofNat_toNat] at hmap

instance : Lawful Int64 where
  write_ne_nil n := writeNat_ne_nil (fold n.toInt)
  reads n _ := by
    have hfold : fold n.toInt < UInt64.size := by
      have hlower := n.le_toInt
      have hupper := n.toInt_lt
      unfold fold
      simp only [UInt64.size]
      split
      · omega
      · omega
    have hmap := (readNat_eight_reads hfold).map (f := fun x => Int64.ofInt (unfold x))
    rwa [unfold_fold, Int64.ofInt_toInt] at hmap

instance : Lawful Bool where
  write_ne_nil b := List.cons_ne_nil _ _
  reads b _ := by
    cases b with
    | false => exact Reads.cons (Reads.pure false)
    | true => exact Reads.cons (Reads.pure true)

/-- A length that memory has room for is read off its form. -/
theorem readTextLength_reads {length : Nat} (h : length < memorySize) :
    Reads readTextLength (writeNat length) length := by
  have hshort : length < 0x8000000000000000 := h
  refine (readNat_eight_reads (Nat.lt_trans h (by decide))).finish ?_
  rw [if_pos hshort]
  exact Reads.pure length

instance : Lawful String where
  write_ne_nil s := List.append_ne_nil_of_left_ne_nil (writeNat_ne_nil _) _
  reads s h := by
    have hform : write s = writeNat (Bytes.ofText s).length ++ Bytes.ofText s := rfl
    rw [hform, List.length_append] at h
    have hlength : (Bytes.ofText s).length < memorySize := by omega
    refine (readTextLength_reads hlength).bind ((take_reads rfl).finish ?_)
    rw [Bytes.toText?_ofText]
    exact Reads.pure s

section

variable {α β : Type} [Binary α] [Binary β] [Lawful α] [Lawful β]

/-- A list is no longer than its form, as no item has an empty one. -/
theorem length_le_length_flatMap (l : List α) : l.length ≤ (l.flatMap write).length := by
  induction l with
  | nil => simp
  | cons a rest ih =>
    have hpos : 0 < (write a).length := List.length_pos_iff.mpr (Lawful.write_ne_nil a)
    rw [List.flatMap_cons, List.length_append, List.length_cons]
    omega

/-- Values are read off their forms, one behind the other, if these fit in memory. -/
theorem readMany_reads {l : List α} (h : (l.flatMap write).length < memorySize) :
    Reads (readMany read l.length) (l.flatMap write) l := by
  induction l with
  | nil => exact Reads.pure []
  | cons a rest ih => exact reads_bind h fun hrest => (ih hrest).map

instance : Lawful (List α) where
  write_ne_nil l := List.append_ne_nil_of_left_ne_nil (writeNat_ne_nil l.length) _
  reads l h := by
    have hform : write l = writeNat l.length ++ l.flatMap write := rfl
    rw [hform, List.length_append] at h
    have hitems : (l.flatMap write).length < memorySize := by omega
    have hlength : l.length < UInt64.size :=
      Nat.lt_of_le_of_lt (length_le_length_flatMap l) (Nat.lt_trans hitems (by decide))
    exact (readNat_eight_reads hlength).bind (readMany_reads hitems)

instance : Lawful (Option α) where
  write_ne_nil a := by
    cases a with
    | none => exact List.cons_ne_nil _ _
    | some a => exact List.cons_ne_nil _ _
  reads a h := by
    cases a with
    | none => exact Reads.cons (Reads.pure none)
    | some a =>
      have hitem : (write a).length < memorySize := Nat.lt_of_succ_lt h
      exact Reads.cons (reads_map hitem)

instance : Lawful (α × β) where
  write_ne_nil p := List.append_ne_nil_of_left_ne_nil (Lawful.write_ne_nil p.1) _
  reads _ h := reads_bind h reads_map

end

instance : Lawful NameSet where
  write_ne_nil names := Lawful.write_ne_nil names.keys
  reads names h := by
    have hread := reads_map (f := NameSet.ofNames) (a := names.keys) h
    have hentries : names.keys.map (fun name => (name, ())) = names.entries := by
      simp [SortedMap.keys, Function.comp_def]
    rwa [NameSet.ofNames, hentries, SortedMap.ofList_entries] at hread

instance : Lawful DataType where
  write_ne_nil type := by
    cases type with
    | integer => exact writeNat_ne_nil 0
    | char => exact writeNat_ne_nil 1
    | date => exact writeNat_ne_nil 2
  reads type _ := by
    cases type with
    | integer => exact (readNat_four_reads (by decide)).finish (Reads.pure DataType.integer)
    | char => exact (readNat_four_reads (by decide)).finish (Reads.pure DataType.char)
    | date => exact (readNat_four_reads (by decide)).finish (Reads.pure DataType.date)

/-- The form of a date is that of its first field with those of the others behind it. -/
theorem write_date (d : Date) : write d = write d.year ++ (write d.month ++ write d.day) := by
  simp only [← List.append_assoc]
  rfl

instance : Lawful Date where
  write_ne_nil d := by
    rw [write_date]
    exact List.append_ne_nil_of_left_ne_nil (Lawful.write_ne_nil d.year) _
  reads d h := by
    rw [write_date] at h ⊢
    exact reads_bind h fun h => reads_bind h reads_map

instance : Lawful Value where
  write_ne_nil v := by
    cases v with
    | null => exact writeNat_ne_nil 0
    | integer n => exact List.append_ne_nil_of_left_ne_nil (writeNat_ne_nil 1) _
    | char s => exact List.append_ne_nil_of_left_ne_nil (writeNat_ne_nil 2) _
    | date d => exact List.append_ne_nil_of_left_ne_nil (writeNat_ne_nil 3) _
  reads v h := by
    cases v with
    | null => exact (readNat_four_reads (by decide)).finish (Reads.pure Value.null)
    | integer n => exact reads_numbered (by decide) h reads_map
    | char s => exact reads_numbered (by decide) h reads_map
    | date d => exact reads_numbered (by decide) h reads_map

/-- The form of an attribute is that of its fields, in their order. -/
theorem write_attribute (a : Attribute) :
    write a = write a.name ++ (write a.table ++ (write a.dataType ++ (write a.charLength ++
      (write a.nullable ++ (write a.primary ++ write a.references))))) := by
  simp only [← List.append_assoc]
  rfl

instance : Lawful Attribute where
  write_ne_nil a := by
    rw [write_attribute]
    exact List.append_ne_nil_of_left_ne_nil (Lawful.write_ne_nil a.name) _
  reads a h := by
    rw [write_attribute] at h ⊢
    exact reads_bind h fun h => reads_bind h fun h => reads_bind h fun h => reads_bind h fun h =>
      reads_bind h fun h => reads_bind h reads_map

/-- The form of a foreign key is that of its fields, in their order. -/
theorem write_foreignKey (fk : ForeignKey) :
    write fk = write fk.columns ++ (write fk.table ++
      (write fk.refColumns ++ write fk.nullable)) := by
  simp only [← List.append_assoc]
  rfl

instance : Lawful ForeignKey where
  write_ne_nil fk := by
    rw [write_foreignKey]
    exact List.append_ne_nil_of_left_ne_nil (Lawful.write_ne_nil fk.columns) _
  reads fk h := by
    rw [write_foreignKey] at h ⊢
    exact reads_bind h fun h => reads_bind h fun h => reads_bind h reads_map

/-- The form of a table is that of its fields, in their order. -/
theorem write_table (t : Table) :
    write t = write t.name ++ (write t.schema ++ (write t.rows ++ (write t.primaryKey ++
      (write t.foreignKeys ++ write t.referencedBy)))) := by
  simp only [← List.append_assoc]
  rfl

instance : Lawful Table where
  write_ne_nil t := by
    rw [write_table]
    exact List.append_ne_nil_of_left_ne_nil (Lawful.write_ne_nil t.name) _
  reads t h := by
    rw [write_table] at h ⊢
    exact reads_bind h fun h => reads_bind h fun h => reads_bind h fun h => reads_bind h fun h =>
      reads_bind h reads_map

/-- A number takes one byte below 251, else a mark and the least of 2, 4 and 8 bytes that has
room for it. -/
theorem length_writeNat (n : Nat) : (writeNat n).length =
    if n < 251 then 1 else if n < UInt16.size then 3 else if n < UInt32.size then 5 else 9 := by
  unfold writeNat
  split
  · rfl
  · split
    · rfl
    · split
      · rfl
      · rfl

/-- A greater number takes no fewer bytes. -/
theorem length_writeNat_mono {m n : Nat} (h : m ≤ n) :
    (writeNat m).length ≤ (writeNat n).length := by
  simp only [length_writeNat, UInt16.size, UInt32.size]
  split_ifs <;> omega

/-- A list takes no more bytes than one with further items in between. -/
theorem length_write_le_of_sublist {α : Type} [Binary α] {l l' : List α} (h : l.Sublist l') :
    (write l).length ≤ (write l').length := by
  have hform : ∀ l : List α, write l = writeNat l.length ++ l.flatMap write := fun _ => rfl
  have hnumber := length_writeNat_mono h.length_le
  have hitems := (h.flatMap write).length_le
  rw [hform, hform, List.length_append, List.length_append]
  omega

/-- A list takes no more bytes than one of the same length whose items take no fewer. -/
theorem length_write_le_of_forall₂ {α : Type} [Binary α] {l l' : List α}
    (h : List.Forall₂ (fun a a' => (write a).length ≤ (write a').length) l l') :
    (write l).length ≤ (write l').length := by
  have hform : ∀ l : List α, write l = writeNat l.length ++ l.flatMap write := fun _ => rfl
  have hitems : (l.flatMap write).length ≤ (l'.flatMap write).length := by
    induction h with
    | nil => exact Nat.le_refl _
    | cons hfirst _ ih =>
      simp only [List.flatMap_cons, List.length_append]
      omega
  rw [hform, hform, h.length_eq, List.length_append, List.length_append]
  omega

/-- No value takes fewer bytes than NULL. -/
theorem length_write_null_le (v : Value) : (write Value.null).length ≤ (write v).length := by
  have hnull : (write Value.null).length = 1 := rfl
  rw [hnull]
  exact List.length_pos_iff.mpr (Lawful.write_ne_nil v)

/-- A table takes no more bytes than with other rows that take no fewer. -/
theorem length_write_le_of_rows {t : Table} {rows : List Row}
    (h : (write rows).length ≤ (write t.rows).length) :
    (write { t with rows := rows }).length ≤ (write t).length := by
  simp only [write_table, List.length_append]
  omega

/-- A table takes no more bytes when others are no longer listed as referencing it. -/
theorem length_write_le_of_referencedBy {t : Table} {names : NameSet}
    (h : names.entries.Sublist t.referencedBy.entries) :
    (write { t with referencedBy := names }).length ≤ (write t).length := by
  have hkeys : (write names).length ≤ (write t.referencedBy).length :=
    length_write_le_of_sublist (h.map Prod.fst)
  simp only [write_table, List.length_append]
  omega

/-- Decoding gives back what was written, whatever follows it. -/
theorem decode_write_append {α : Type} [Binary α] [Lawful α] {a : α}
    (h : (write a).length < memorySize) (rest : Bytes) : decode (write a ++ rest) = .ok a := by
  simp only [decode, (Lawful.reads a h).whole rest]

/-- Decoding finds what was written malformed where its last bytes are missing. -/
theorem decode_eq_malformed_of_prefix {α : Type} [Binary α] [Lawful α] {a : α} {bytes : Bytes}
    (h : (write a).length < memorySize) (hstarts : bytes <+: write a) (hne : bytes ≠ write a) :
    (decode bytes : Except Failure α) = .error malformed := by
  have hshort : bytes.length < (write a).length :=
    Nat.lt_of_le_of_ne hstarts.length_le fun heq => hne (hstarts.eq_of_length heq)
  have hpart := (Lawful.reads a h).part bytes.length hshort
  rw [← List.prefix_iff_eq_take.mp hstarts] at hpart
  simp only [decode, hpart]

end Binary

end RelationalStore
