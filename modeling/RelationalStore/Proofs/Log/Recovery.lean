import Mathlib.Data.List.Induction
import RelationalStore.Log.Recovery
import RelationalStore.Proofs.Collection.SortedMap
import RelationalStore.Proofs.Log.Entry
import RelationalStore.Store.Memory

/-!
# What a log records

Entries that are written one after another are read back in this order, and nothing is
read off what follows if no entry stands there. In particular a log that is cut anywhere
still gives its first entries, up to the one that is cut through. The index that the
entries build up has a slot for each key that they leave bound, and the value stands at
the slot.
-/

namespace RelationalStore

/-- Makes the change that an entry records: its key is bound to its value, or unbound. -/
def ByteStore.change {σ : Type} [ByteStore σ] (store : σ) (e : Entry) : σ :=
  match e.value with
  | some v => set store e.key v
  | none => delete store e.key

/-- The store in memory after the changes that some entries record. -/
def Memory.afterChanges (entries : List Entry) : Memory :=
  entries.foldl ByteStore.change Memory.empty

/-- The change that the last entry records is made after the others. -/
theorem Memory.afterChanges_concat (entries : List Entry) (e : Entry) :
    afterChanges (entries ++ [e]) = ByteStore.change (afterChanges entries) e := by
  simp [afterChanges]

/-- A change binds its key to its value, or unbinds it. -/
theorem Memory.bindings_change (m : Memory) (e : Entry) :
    (ByteStore.change m e).index.bindings = match e.value with
      | some v => m.index.bindings.insert e.key v
      | none => m.index.bindings.erase e.key := by
  unfold ByteStore.change
  cases e.value <;> rfl

/-- An index has been used as soon as a change has bound a key in it. -/
theorem Memory.used_change (m : Memory) (e : Entry) :
    (ByteStore.change m e).index.used = (m.index.used || e.value.isSome) := by
  unfold ByteStore.change
  cases e.value with
  | none => exact (Bool.or_false _).symm
  | some v => exact (Bool.or_true _).symm

/-- A store in memory that has not been asked to bind a key binds none. -/
theorem Memory.entries_eq_nil_of_unused {entries : List Entry}
    (h : (afterChanges entries).index.used = false) :
    (afterChanges entries).index.bindings.entries = [] := by
  induction entries using List.reverseRecOn with
  | nil => rfl
  | append_singleton entries e ih =>
    rw [afterChanges_concat, used_change, Bool.or_eq_false_iff] at h
    obtain ⟨hunused, hvalue⟩ := h
    have hnone : e.value = none := Option.not_isSome_iff_eq_none.mp (by simp [hvalue])
    rw [afterChanges_concat, bindings_change, hnone]
    exact List.filter_eq_nil_iff.mpr (by simp [ih hunused])

namespace Recovery

variable {checksum : Checksum} {input rest : Bytes} {e : Entry} {list : List Entry}

/-- The bytes of entries that are written one after another. -/
def layout (checksum : Checksum) (list : List Entry) : Bytes :=
  list.flatMap fun e => e.bytes checksum

/-- No entries take no bytes. -/
@[simp] theorem layout_nil : layout checksum [] = [] := rfl

/-- The bytes of the first entry stand in front. -/
theorem layout_cons : layout checksum (e :: list) = e.bytes checksum ++ layout checksum list :=
  List.flatMap_cons

/-- The bytes of the last entry stand at the end. -/
theorem layout_concat :
    layout checksum (list ++ [e]) = layout checksum list ++ e.bytes checksum := by
  simp [layout]

/-- Bytes that start with no entry hold none. -/
theorem entries_of_read?_eq_none (h : Entry.read? checksum input = none) :
    entries checksum input = [] := by
  rw [entries]
  split
  · rfl
  · next hsome => simp [h] at hsome

/-- An entry that is read off the front is the first of those that the bytes hold. -/
theorem entries_of_read?_eq_some (h : Entry.read? checksum input = some (e, rest)) :
    entries checksum input = e :: entries checksum rest := by
  rw [entries]
  split
  · next hnone => simp [h] at hnone
  · next e' rest' hsome =>
    obtain ⟨rfl, rfl⟩ := Prod.mk.injEq .. ▸ Option.some.injEq .. ▸ hsome.symm.trans h
    rfl

/-- Entries are read in the order in which they were written, and then what follows them. -/
theorem entries_layout_append (hfits : ∀ e ∈ list, e.Fits) (rest : Bytes) :
    entries checksum (layout checksum list ++ rest) = list ++ entries checksum rest := by
  induction list with
  | nil => rfl
  | cons e list ih =>
    obtain ⟨hfirst, hfits⟩ := List.forall_mem_cons.mp hfits
    have hread : Entry.read? checksum (layout checksum (e :: list) ++ rest) =
        some (e, layout checksum list ++ rest) :=
      Entry.read?_eq_some_iff.mpr ⟨hfirst, by rw [layout_cons, List.append_assoc]⟩
    rw [entries_of_read?_eq_some hread, ih hfits, List.cons_append]

/-- Any byte string starts with the entries that are read off it, and these fit. -/
theorem layout_entries_prefix (checksum : Checksum) (input : Bytes) :
    layout checksum (entries checksum input) <+: input ∧
      ∀ e ∈ entries checksum input, e.Fits := by
  induction hlength : input.length using Nat.strongRecOn generalizing input with
  | ind length ih =>
    cases hread : Entry.read? checksum input with
    | none =>
      rw [entries_of_read?_eq_none hread]
      exact ⟨List.nil_prefix, by simp⟩
    | some found =>
      obtain ⟨e, rest⟩ := found
      have hshorter : rest.length < length := hlength ▸ Entry.length_lt_of_read? hread
      obtain ⟨hstarts, hrest⟩ := ih rest.length hshorter rest rfl
      obtain ⟨hfits, hinput⟩ := Entry.read?_eq_some_iff.mp hread
      rw [entries_of_read?_eq_some hread, layout_cons, hinput]
      exact ⟨(List.prefix_append_right_inj _).mpr hstarts,
        List.forall_mem_cons.mpr ⟨hfits, hrest⟩⟩

/-- No entry is read off nothing. -/
theorem read?_nil : Entry.read? checksum [] = none := rfl

/-- What was written is read back. -/
theorem entries_layout (hfits : ∀ e ∈ list, e.Fits) :
    entries checksum (layout checksum list) = list := by
  have hread := @entries_layout_append checksum list hfits []
  rwa [List.append_nil, entries_of_read?_eq_none read?_nil, List.append_nil] at hread

/-- A cut leaves the entries that lie wholly before it, and nothing is read behind them. -/
theorem exists_entries_take_layout (hfits : ∀ e ∈ list, e.Fits) {n : Nat}
    (hn : n ≤ (layout checksum list).length) :
    ∃ count ≤ list.length, (layout checksum (list.take count)).length ≤ n ∧
      (∀ i ≤ list.length, (layout checksum (list.take i)).length ≤ n → i ≤ count) ∧
      entries checksum ((layout checksum list).take n) = list.take count := by
  induction list generalizing n with
  | nil =>
    refine ⟨0, Nat.le_refl 0, Nat.zero_le n, fun i hi _ => hi, ?_⟩
    exact entries_of_read?_eq_none (by rw [layout_nil, List.take_nil]; exact read?_nil)
  | cons e list ih =>
    obtain ⟨hfirst, hfits⟩ := List.forall_mem_cons.mp hfits
    have hsize : (e.bytes checksum).length = e.size := e.length_bytes
    by_cases hcut : n < e.size
    · -- the cut goes through the first entry, of which only a part is left
      refine ⟨0, Nat.zero_le _, Nat.zero_le n, fun i _ hspan => ?_, ?_⟩
      · cases i with
        | zero => exact Nat.le_refl 0
        | succ i =>
          rw [List.take_succ_cons, layout_cons, List.length_append] at hspan
          omega
      · have hpart : (layout checksum (e :: list)).take n = (e.bytes checksum).take n := by
          rw [layout_cons, List.take_append_of_le_length (by omega)]
        rw [hpart]
        exact entries_of_read?_eq_none (Entry.read?_take_eq_none hfirst hcut)
    · rw [layout_cons, List.length_append] at hn
      obtain ⟨count, hcount, hspan, hmost, hentries⟩ := ih hfits (n := n - e.size) (by omega)
      refine ⟨count + 1, Nat.succ_le_succ hcount, ?_, fun i hi hspan => ?_, ?_⟩
      · rw [List.take_succ_cons, layout_cons, List.length_append]
        omega
      · cases i with
        | zero => exact Nat.zero_le _
        | succ i =>
          rw [List.take_succ_cons, layout_cons, List.length_append] at hspan
          have hi := hmost i (Nat.le_of_succ_le_succ hi) (by omega)
          omega
      · have hwhole : (layout checksum (e :: list)).take n =
            e.bytes checksum ++ (layout checksum list).take (n - e.size) := by
          rw [layout_cons, List.take_append, hsize, List.take_of_length_le (by omega)]
        have hread := Entry.read?_eq_some_iff.mpr ⟨hfirst, hwhole⟩
        rw [entries_of_read?_eq_some hread, hentries, List.take_succ_cons]

/-- The last entry is replayed after the others. -/
theorem replay_concat : replay (list ++ [e]) = applyEntry (replay list) e := by
  simp [replay]

/-- The last entry ends where the bytes of all entries end. -/
theorem replay_snd (checksum : Checksum) (list : List Entry) :
    (replay list).2 = (layout checksum list).length := by
  induction list using List.reverseRecOn with
  | nil => rfl
  | append_singleton list e ih =>
    rw [replay_concat, applyEntry, ih, layout_concat, List.length_append, e.length_bytes]

end Recovery

/-- The value of a key stands at the slot in the bytes of a log. -/
def Slot.Holds (contents : Bytes) (k : Key) (slot : Slot) (v : Bytes) : Prop :=
  slot.size.toNat = v.length ∧ v <+: contents.drop (slot.start + Entry.headerSize + k.length)

/-- What stands in a log still stands there when more is written behind it. -/
theorem Slot.Holds.append {contents : Bytes} {k : Key} {slot : Slot} {v : Bytes}
    (h : slot.Holds contents k v) (more : Bytes) : slot.Holds (contents ++ more) k v := by
  refine ⟨h.1, ?_⟩
  rw [List.drop_append]
  exact h.2.trans (List.prefix_append _ _)

namespace Recovery

variable {checksum : Checksum} {list : List Entry}

/-- Behind the header and the key of an entry there is its value. -/
theorem drop_bytes_of_value {e : Entry} {v : Bytes} (hvalue : e.value = some v) (before : Bytes) :
    (before ++ e.bytes checksum).drop (before.length + Entry.headerSize + e.key.length) = v := by
  obtain ⟨front, hbytes, hfront⟩ : ∃ front, e.bytes checksum = front ++ v ∧
      front.length = Entry.headerSize + e.key.length := by
    refine ⟨_, by rw [Entry.bytes, Entry.body, hvalue, ← List.append_assoc]; rfl, ?_⟩
    simp only [List.length_append, Bytes.length_bigEndian, Entry.headerSize]
    omega
  have hstart : before.length + Entry.headerSize + e.key.length =
      (before ++ front).length := by
    rw [List.length_append, hfront]
    omega
  rw [hbytes, ← List.append_assoc, hstart, List.drop_left]

/-- The value of an entry stands at the slot of the entry. -/
theorem holds_of_value {e : Entry} {v : Bytes} (hfits : e.Fits) (hvalue : e.value = some v)
    (before : Bytes) :
    Slot.Holds (before ++ e.bytes checksum) e.key ⟨before.length, UInt32.ofNat v.length⟩ v := by
  have hlength : v.length < UInt32.size := Nat.lt_trans (hfits.value v hvalue) (by decide)
  refine ⟨UInt32.toNat_ofNat_of_lt' hlength, ?_⟩
  exact (drop_bytes_of_value hvalue before).symm ▸ List.prefix_rfl

/-- The index that entries build up binds the keys that they leave bound, each to a slot
where its value stands. -/
theorem replay_paired (checksum : Checksum) (hfits : ∀ e ∈ list, e.Fits) :
    (replay list).1.bindings.Paired (Slot.Holds (layout checksum list))
        (Memory.afterChanges list).index.bindings ∧
      (replay list).1.used = (Memory.afterChanges list).index.used := by
  induction list using List.reverseRecOn with
  | nil => exact ⟨SortedMap.paired_empty, rfl⟩
  | append_singleton list e ih =>
    have hbefore : ∀ e' ∈ list, e'.Fits := fun e' he' => hfits e' (List.mem_append_left _ he')
    have he : e.Fits := hfits e (List.mem_append_right _ List.mem_cons_self)
    obtain ⟨hpaired, hused⟩ := ih hbefore
    have hstill : (replay list).1.bindings.Paired (Slot.Holds (layout checksum (list ++ [e])))
        (Memory.afterChanges list).index.bindings :=
      hpaired.mono fun k slot v hholds => layout_concat ▸ hholds.append _
    rw [replay_concat, Memory.afterChanges_concat, applyEntry, ByteStore.change]
    cases hvalue : e.value with
    | none => exact ⟨hstill.erase e.key, hused⟩
    | some v =>
      refine ⟨hstill.insert ?_, rfl⟩
      rw [replay_snd checksum, layout_concat]
      exact holds_of_value he hvalue (layout checksum list)

end Recovery

end RelationalStore
