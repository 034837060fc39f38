import Mathlib.Data.Set.List
import RelationalStore.Catalog.Stored
import RelationalStore.Proofs.Binary.RoundTrip
import RelationalStore.Proofs.Catalog.TableMap
import RelationalStore.Proofs.Result
import RelationalStore.Proofs.Store.Interval
import RelationalStore.Store.Memory

/-!
# Tables kept in memory

A store in memory holds a map of tables when it binds exactly the keys of its names, each
to the form of its table. Saving and removing tables does the same to both. What is read
from the store is what is found in the map, as long as every form fits in memory.
-/

namespace RelationalStore

namespace TableStore

variable {c : TableStore Memory} {tables : TableMap} {t : Table} {name other : String} {k : Key}

/-- Different names have different keys. -/
theorem keyOf_eq_iff : keyOf name = keyOf other ↔ name = other :=
  ⟨fun h => Bytes.ofText_injective (List.append_cancel_left h), fun h => h ▸ rfl⟩

/-- Saving a table binds the key of its name to its form and no other key. -/
theorem get?_save : (Catalog.save c t).store.index.bindings.get? k =
    if k = keyOf t.name then some (Binary.write t) else c.store.index.bindings.get? k :=
  SortedMap.get?_insert

/-- Removing a table frees the key of its name and no other key. -/
theorem get?_remove : (Catalog.remove c name).store.index.bindings.get? k =
    if k = keyOf name then none else c.store.index.bindings.get? k :=
  SortedMap.get?_erase

/-- The bytes kept under each name are the form of the table of that name. -/
structure Holds (c : TableStore Memory) (tables : TableMap) : Prop where
  forms : ∀ name, c.store.index.bindings.get? (keyOf name) =
    (tables.find name).map Binary.write
  keys : ∀ k, c.store.index.bindings.contains k = true → ∃ name, k = keyOf name

/-- Every byte string that is kept is one that memory can hold: no byte string has `2 ^ 63`
bytes or more. Lists of bytes know no such limit, and so it is stated here. -/
def FitsMemory (c : TableStore Memory) : Prop :=
  ∀ e ∈ c.store.index.bindings.entries, e.2.length < Binary.memorySize

instance : DecidablePred FitsMemory := fun c =>
  inferInstanceAs (Decidable (∀ e ∈ c.store.index.bindings.entries, _))

/-- What is found under a key is one of the byte strings that fit in memory. -/
theorem FitsMemory.length_lt (h : c.FitsMemory) {bytes : Bytes}
    (hget : c.store.index.bindings.get? k = some bytes) : bytes.length < Binary.memorySize := by
  obtain ⟨e, he, rfl⟩ := SortedMap.exists_entry_of_get? hget
  exact h e he

/-- An empty store holds the empty map of tables. -/
theorem holds_empty : Holds ⟨Memory.empty⟩ TableMap.empty :=
  ⟨fun _ => rfl, fun k h => by simp [Memory.empty, KeyIndex.empty, SortedMap.contains] at h⟩

/-- Saving a table in the store saves it in the map that the store holds. -/
theorem Holds.save (h : Holds c tables) (t : Table) :
    Holds (Catalog.save c t) (tables.save t) := by
  refine ⟨fun name => ?_, fun k hk => ?_⟩
  · rw [get?_save, TableMap.find_save, h.forms name]
    by_cases hname : name = t.name
    · simp [hname]
    · simp [hname, keyOf_eq_iff]
  · rw [SortedMap.contains, get?_save] at hk
    split at hk
    · next heq => exact ⟨t.name, heq⟩
    · exact h.keys k hk

/-- Removing a table from the store removes it from the map that the store holds. -/
theorem Holds.remove (h : Holds c tables) (name : String) :
    Holds (Catalog.remove c name) (tables.remove name) := by
  refine ⟨fun other => ?_, fun k hk => ?_⟩
  · rw [get?_remove, TableMap.remove, h.forms other]
    by_cases hname : other = name
    · simp [hname]
    · simp [hname, keyOf_eq_iff]
  · rw [SortedMap.contains, get?_remove] at hk
    split at hk
    · cases hk
    · exact h.keys k hk

/-- What is kept under a key depends only on the table of the name whose key it is. -/
theorem Holds.get_congr {c' : TableStore Memory} {tables' : TableMap} (h : Holds c tables)
    (h' : Holds c' tables') (hsame : ∀ name, k = keyOf name →
      tables'.find name = tables.find name) :
    ByteStore.get c'.store k = ByteStore.get c.store k := by
  have hbound : c'.store.index.bindings.get? k = c.store.index.bindings.get? k := by
    by_cases hkey : ∃ name, k = keyOf name
    · obtain ⟨name, rfl⟩ := hkey
      rw [h.forms, h'.forms, hsame name rfl]
    · have hfree {s : TableStore Memory} {held : TableMap} (hs : Holds s held) :
          s.store.index.bindings.get? k = none :=
        Option.not_isSome_iff_eq_none.mp fun hsome => hkey (hs.keys k hsome)
      rw [hfree h, hfree h']
  exact congrArg Except.ok hbound

/-- Catalogs that hold the same tables keep the same bytes. -/
theorem Holds.get_eq {c' : TableStore Memory} (h : Holds c tables) (h' : Holds c' tables)
    (k : Key) : ByteStore.get c'.store k = ByteStore.get c.store k :=
  h.get_congr h' fun _ _ => rfl

/-- A name has the form of its table under its key. -/
theorem Holds.get_keyOf (h : Holds c tables) (name : String) :
    ByteStore.get c.store (keyOf name) = .ok ((tables.find name).map Binary.write) :=
  congrArg Except.ok (h.forms name)

/-- Every entry of the store is a table of the map under the key of its name. -/
theorem Holds.exists_of_mem (h : Holds c tables) {e : Key × Bytes}
    (he : e ∈ c.store.index.bindings.entries) :
    ∃ t, tables.find t.name = some t ∧ e = (keyOf t.name, Binary.write t) := by
  have hget : c.store.index.bindings.get? e.1 = some e.2 := SortedMap.get?_of_mem he
  obtain ⟨name, hkey⟩ := h.keys e.1 (by rw [SortedMap.contains, hget, Option.isSome_some])
  rw [hkey, h.forms name] at hget
  obtain ⟨t, hfind, hform⟩ := Option.map_eq_some_iff.mp hget
  obtain rfl := tables.named name t hfind
  exact ⟨t, hfind, Prod.ext hkey hform.symm⟩

/-- A store fits in memory exactly if the form of each of its tables does. -/
theorem Holds.fitsMemory_iff (h : Holds c tables) : c.FitsMemory ↔
    ∀ name t, tables.find name = some t → (Binary.write t).length < Binary.memorySize := by
  constructor
  · intro hfits name t hfind
    have hform : c.store.index.bindings.get? (keyOf name) = some (Binary.write t) := by
      rw [h.forms name, hfind, Option.map_some]
    exact hfits.length_lt hform
  · intro hall e he
    obtain ⟨t, hfind, rfl⟩ := h.exists_of_mem he
    exact hall t.name t hfind

/-- What comes of tables fits in memory if none of them gets a longer form. -/
theorem Holds.fitsMemory_of_length_le {c' : TableStore Memory} {tables' : TableMap}
    (h : Holds c tables) (hfits : c.FitsMemory) (h' : Holds c' tables')
    (hle : ∀ name u', tables'.find name = some u' → ∃ u, tables.find name = some u ∧
      (Binary.write u').length ≤ (Binary.write u).length) : c'.FitsMemory := by
  refine h'.fitsMemory_iff.mpr fun name u' hu' => ?_
  obtain ⟨u, hu, hlength⟩ := hle name u' hu'
  exact Nat.lt_of_le_of_lt hlength (h.fitsMemory_iff.mp hfits name u hu)

/-- A name is in the store exactly if a table of that name is in the map. -/
theorem Holds.has_iff (h : Holds c tables) :
    Catalog.has c name = true ↔ ∃ t, tables.find name = some t := by
  have hhas : Catalog.has c name = (c.store.index.bindings.get? (keyOf name)).isSome := rfl
  rw [hhas, h.forms name, Option.isSome_map, Option.isSome_iff_exists]

/-- Loading a table looks its key up and reads the table off the bytes that are found there. -/
theorem load_eq (c : TableStore Memory) (name : String) :
    Catalog.load c name = match c.store.index.bindings.get? (keyOf name) with
      | some bytes => (Binary.decode bytes).map some
      | none => .ok none := by
  have hload : Catalog.load c name = TableStore.load c name := rfl
  have hstore : ByteStore.get c.store (keyOf name) =
      .ok (c.store.index.bindings.get? (keyOf name)) := rfl
  rw [hload, TableStore.load, hstore]
  cases c.store.index.bindings.get? (keyOf name) with
  | none => rfl
  | some bytes => rfl

/-- What fits in memory is read as it was stored. -/
theorem Holds.load_eq_find (h : Holds c tables) (hfits : c.FitsMemory) (name : String) :
    Catalog.load c name = .ok (tables.find name) := by
  rw [load_eq]
  have hform := h.forms name
  cases hfind : tables.find name with
  | none =>
    rw [hfind, Option.map_none] at hform
    rw [hform]
  | some t =>
    rw [hfind, Option.map_some] at hform
    have hdecode := Binary.decode_write_append (hfits.length_lt hform) []
    rw [List.append_nil] at hdecode
    simp only [hform, hdecode, Except.map]

/-- Loading tables from a store that fits in memory is reading them off the map. -/
theorem Holds.load_eq_read (h : Holds c tables) (hfits : c.FitsMemory) :
    Catalog.load c = tables.read :=
  funext (h.load_eq_find hfits)

/-- A table that is read has been kept in some bytes. -/
theorem exists_bytes_of_load (h : Catalog.load c name = .ok (some t)) :
    ∃ bytes, c.store.index.bindings.get? (keyOf name) = some bytes ∧
      Binary.decode bytes = .ok t := by
  rw [load_eq] at h
  cases hbytes : c.store.index.bindings.get? (keyOf name) with
  | none => simp [hbytes] at h
  | some bytes =>
    refine ⟨bytes, rfl, ?_⟩
    cases hdecode : (Binary.decode bytes : Except Failure Table) with
    | error f => simp [hbytes, hdecode, Except.map] at h
    | ok u => simpa [hbytes, hdecode, Except.map] using h

/-- What is read under a name depends only on the bytes that are kept under it. -/
theorem load_congr {c' : TableStore Memory} (h : c'.store.index.bindings.get? (keyOf name) =
    c.store.index.bindings.get? (keyOf name)) : Catalog.load c' name = Catalog.load c name := by
  rw [load_eq, load_eq, h]

/-- Saving a table does not change what is read under another name. -/
theorem load_save_of_ne (h : name ≠ t.name) :
    Catalog.load (Catalog.save c t) name = Catalog.load c name := by
  have hkey : keyOf name ≠ keyOf t.name := fun heq => h (keyOf_eq_iff.mp heq)
  exact load_congr (by rw [get?_save, if_neg hkey])

/-- A name is got back from its key. -/
theorem nameOf_keyOf (name : String) : nameOf (keyOf name) = .ok name := by
  rw [nameOf, keyOf, List.drop_left, Bytes.toText?_ofText]

/-- The names that are listed are those of the tables, in ascending order of their bytes and
without repetitions. -/
theorem Holds.exists_names (h : Holds c tables) :
    ∃ names, Catalog.names c = .ok names ∧
      names.Pairwise (fun a b => compare (Bytes.ofText a) (Bytes.ofText b) = .lt) ∧
      ∀ name, name ∈ names ↔ (tables.find name).isSome = true := by
  have hrange : c.store.index.bindings.keys ∈ Set.range (List.map keyOf) := by
    rw [Set.range_list_map]
    intro k hk
    obtain ⟨name, rfl⟩ := h.keys k (SortedMap.mem_keys_iff_contains.mp hk)
    exact ⟨name, rfl⟩
  obtain ⟨names, hnames⟩ := hrange
  have hall : (c.store.index.bindings.entries.filter fun e =>
      (Interval.startingWith keyStart).contains e.1) = c.store.index.bindings.entries := by
    refine List.filter_eq_self.mpr fun e he => Interval.contains_startingWith_iff.mpr ?_
    have hkey : e.1 ∈ names.map keyOf := hnames ▸ List.mem_map_of_mem he
    obtain ⟨name, _, hname⟩ := List.mem_map.mp hkey
    exact hname ▸ List.prefix_append _ _
  have hscan : ByteStore.scanStart c.store keyStart = .ok c.store.index.bindings.entries := by
    have hrange : ByteStore.scanStart c.store keyStart =
        c.store.index.range (Interval.startingWith keyStart) := rfl
    rw [hrange, KeyIndex.range, Interval.improper_startingWith, Bool.and_false, hall]
    rfl
  refine ⟨names, ?_, ?_, fun name => ?_⟩
  · have hlisted : Catalog.names c = TableStore.names c := rfl
    rw [hlisted, TableStore.names, bind_eq_ok_iff]
    refine ⟨_, hscan, mapM_eq_ok_iff.mpr ?_⟩
    have hpaired : List.Forall₂ (fun k name => k = keyOf name)
        c.store.index.bindings.keys names := by
      rw [← hnames, List.forall₂_map_left_iff]
      exact List.forall₂_same.mpr fun _ _ => rfl
    refine (List.forall₂_map_left_iff.mp hpaired).imp fun e name hkey => ?_
    rw [hkey, nameOf_keyOf]
    rfl
  · have hascending : c.store.index.bindings.keys.Pairwise fun k k' => compare k k' = .lt :=
      List.pairwise_map.mpr c.store.index.bindings.ascending
    rw [← hnames, List.pairwise_map] at hascending
    refine hascending.imp fun {a b} hlt => ?_
    rwa [keyOf, keyOf, Interval.compare_append_left] at hlt
  · rw [← Option.isSome_map, ← h.forms name]
    have hkey : keyOf name ∈ c.store.index.bindings.keys ↔
        c.store.index.bindings.contains (keyOf name) = true := SortedMap.mem_keys_iff_contains
    rw [← hnames] at hkey
    rw [← SortedMap.contains, ← hkey]
    simp [keyOf_eq_iff]

end TableStore

end RelationalStore
