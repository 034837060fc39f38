import RelationalStore.Proofs.Collection.Paired
import RelationalStore.Proofs.Failing
import RelationalStore.Proofs.Log.Space
import RelationalStore.Proofs.Log.Uncounted

/-!
# Listing the keys that start alike

Both kinds of store list the bindings whose keys start with given bytes exactly, and in the
order of the keys. They ask their index for one interval, which is never improper. A store that
keeps a log then reads the values off its file. It can do so as long as the file reaches to the
end of every slot, and whatever it does to its log keeps this true: what is written is long
enough for the slot that is made for it, and what was written before stays. It does not matter
whether the lengths of keys and values have room in their fields.
-/

namespace RelationalStore

/-- An index finds just the entries whose keys start with the given bytes, in the order of the
keys, and be it that it has never held a key. -/
theorem KeyIndex.exists_range_startingWith {α : Type} (index : KeyIndex α) (start : Bytes) :
    ∃ found, index.range (Interval.startingWith start) = .ok found ∧
      (found.Pairwise fun x y => compare x.1 y.1 = .lt) ∧
      ∀ k a, (k, a) ∈ found ↔ index.bindings.get? k = some a ∧ start <+: k := by
  refine ⟨index.bindings.entries.filter fun e => (Interval.startingWith start).contains e.1, ?_,
    SortedMap.ascending_filter _ index.bindings.ascending, fun k a => ?_⟩
  · rw [range, Interval.improper_startingWith, Bool.and_false, if_neg Bool.false_ne_true]
  · rw [List.mem_filter, SortedMap.mem_entries_iff, Interval.contains_startingWith_iff]

/-- The list has the bindings of the store whose keys start with the given bytes and no others,
in the order of the keys. No key is left out because its value could not be read. -/
structure ByteStore.ListsStart {σ : Type} [ByteStore σ] (store : σ) (start : Bytes)
    (found : List (Key × Bytes)) : Prop where
  ascending : found.Pairwise fun x y => compare x.1 y.1 = .lt
  mem_iff : ∀ k v, (k, v) ∈ found ↔ ByteStore.get store k = .ok (some v) ∧ start <+: k
  key_iff : ∀ k, (∃ v, (k, v) ∈ found) ↔ ByteStore.has store k = true ∧ start <+: k

/-- A store in memory always lists the bindings whose keys start with some bytes. -/
theorem Memory.exists_scanStart (m : Memory) (start : Bytes) :
    ∃ found, ByteStore.scanStart m start = .ok found ∧ ByteStore.ListsStart m start found := by
  obtain ⟨found, hrange, hascending, hmem⟩ := m.index.exists_range_startingWith start
  refine ⟨found, hrange, hascending, fun k v => ?_, fun k => ?_⟩
  · have hget : ByteStore.get m k = .ok (m.index.bindings.get? k) := rfl
    rw [hmem, hget, Except.ok.injEq]
  · have hhas : ByteStore.has m k = (m.index.bindings.get? k).isSome := rfl
    simp only [hmem, exists_and_right, hhas, Option.isSome_iff_exists]

/-- A file of the length reaches to the end of the value that the slot is for. -/
def Slot.Within (length : Nat) (k : Key) (slot : Slot) : Prop :=
  slot.start + Entry.headerSize + k.length + slot.size.toNat ≤ length

/-- A longer file reaches to the end of every slot that a shorter one reaches to. -/
theorem Slot.Within.mono {length length' : Nat} {k : Key} {slot : Slot}
    (h : slot.Within length k) (hle : length ≤ length') : slot.Within length' k :=
  Nat.le_trans h hle

/-- The slot of an entry lies within it, be its value too long for the field or not. -/
theorem Entry.within (stamp : UInt32) (k : Key) (v : Bytes) (start : Nat) :
    Slot.Within (start + (⟨stamp, k, some v⟩ : Entry).size) k ⟨start, UInt32.ofNat v.length⟩ := by
  have hsize : (UInt32.ofNat v.length).toNat ≤ v.length := by
    rw [UInt32.toNat_ofNat']
    exact Nat.mod_le _ _
  simp only [Slot.Within, Entry.size, Option.getD_some]
  omega

/-- The slot of one of the entries lies within the bytes of all of them. -/
theorem Slot.MadeBy.within {checksum : Checksum} {list : List Entry} {k : Key} {slot : Slot}
    (h : slot.MadeBy checksum list k) : slot.Within (Recovery.layout checksum list).length k := by
  obtain ⟨before, stamp, v, after, rfl, _, rfl⟩ := h
  have hparts : Recovery.layout checksum (before ++ ⟨stamp, k, some v⟩ :: after) =
      Recovery.layout checksum before ++
        ((⟨stamp, k, some v⟩ : Entry).bytes checksum ++ Recovery.layout checksum after) := by
    simp [Recovery.layout]
  apply (Entry.within stamp k v _).mono
  rw [hparts, List.length_append, List.length_append, Entry.length_bytes]
  exact Nat.add_le_add_left (Nat.le_add_right _ _) _

namespace LogStore

variable {checksum : Checksum} {s next : LogStore checksum} {list : List Entry} {k : Key}
  {v : Bytes} {start : Bytes} {found : List (Key × Bytes)} {action : LogAction}

/-- A key has a value exactly if the index has a slot for it off which the value is read. -/
theorem get_eq_some_iff : ByteStore.get s k = .ok (some v) ↔
    ∃ slot, s.log.index.bindings.get? k = some slot ∧
      s.log.readValue s.directory k slot = .ok v := by
  have hget : ByteStore.get s k = s.log.get s.directory k := rfl
  rw [hget, Log.get]
  cases s.log.index.bindings.get? k with
  | none => simp
  | some slot =>
    simp only [Option.some.injEq, exists_eq_left']
    cases s.log.readValue s.directory k slot with
    | error e => simp [Except.map]
    | ok w => simp [Except.map]

/-- Several values are read exactly if each of them is, and they are given in the same order. -/
theorem readValues_eq_ok_iff {slots : List (Key × Slot)} :
    s.log.readValues s.directory slots = .ok found ↔
      List.Forall₂ (fun x y => x.1 = y.1 ∧ s.log.readValue s.directory x.1 x.2 = .ok y.2)
        slots found := by
  have hone (x : Key × Slot) (y : Key × Bytes) :
      (s.log.readValue s.directory x.1 x.2).map (fun v => (x.1, v)) = .ok y ↔
        x.1 = y.1 ∧ s.log.readValue s.directory x.1 x.2 = .ok y.2 := by
    cases s.log.readValue s.directory x.1 x.2 with
    | error e => simp [Except.map]
    | ok v => simp [Except.map, Prod.ext_iff]
  rw [Log.readValues, mapM_eq_ok_iff]
  simp only [hone]

/-- In whatever state the store is, what it lists is right. -/
theorem listsStart_of_scanStart (h : ByteStore.scanStart s start = .ok found) :
    ByteStore.ListsStart s start found := by
  obtain ⟨_, hrange, hascending, hmem⟩ := s.log.index.exists_range_startingWith start
  obtain ⟨slots, hslots, hread⟩ := bind_eq_ok_iff.mp h
  obtain rfl := Except.ok.inj (hslots.symm.trans hrange)
  have hpaired := readValues_eq_ok_iff.mp (Failure.lift_eq_ok_iff.mp hread)
  have hslot (k : Key) (v : Bytes) (hfound : (k, v) ∈ found) :
      ∃ slot, (k, slot) ∈ slots ∧ s.log.readValue s.directory k slot = .ok v := by
    obtain ⟨⟨_, slot⟩, hslot, rfl, hvalue⟩ := hpaired.exists_left hfound
    exact ⟨slot, hslot, hvalue⟩
  have hvalue (k : Key) (slot : Slot) (hslot : (k, slot) ∈ slots) :
      ∃ v, (k, v) ∈ found ∧ s.log.readValue s.directory k slot = .ok v := by
    obtain ⟨⟨_, v⟩, hfound, rfl, hvalue⟩ := hpaired.exists_right hslot
    exact ⟨v, hfound, hvalue⟩
  refine ⟨?ascending, fun k v => ?mem, fun k => ?key⟩
  case ascending =>
    refine hpaired.pairwise hascending fun x x' y y' hx hx' hlt => ?_
    rwa [← hx.1, ← hx'.1]
  case mem =>
    rw [get_eq_some_iff]
    constructor
    · intro hfound
      obtain ⟨slot, hslot, hv⟩ := hslot k v hfound
      obtain ⟨hbound, hstart⟩ := (hmem k slot).mp hslot
      exact ⟨⟨slot, hbound, hv⟩, hstart⟩
    · rintro ⟨⟨slot, hbound, hv⟩, hstart⟩
      obtain ⟨w, hfound, hw⟩ := hvalue k slot ((hmem k slot).mpr ⟨hbound, hstart⟩)
      obtain rfl := Except.ok.inj (hv.symm.trans hw)
      exact hfound
  case key =>
    have hhas : ByteStore.has s k = (s.log.index.bindings.get? k).isSome := rfl
    rw [hhas, Option.isSome_iff_exists]
    constructor
    · rintro ⟨v, hfound⟩
      obtain ⟨slot, hslot, _⟩ := hslot k v hfound
      obtain ⟨hbound, hstart⟩ := (hmem k slot).mp hslot
      exact ⟨⟨slot, hbound⟩, hstart⟩
    · rintro ⟨⟨slot, hbound⟩, hstart⟩
      obtain ⟨v, hfound, _⟩ := hvalue k slot ((hmem k slot).mpr ⟨hbound, hstart⟩)
      exact ⟨v, hfound⟩

/-- In whatever state the store is, it fails to list for no other reason than that its file does
not hold a value. -/
theorem scanStart_failsOnly (s : LogStore checksum) (start : Bytes) :
    FailsOnly (fun f => ∃ detail, f = .error (.io detail)) (ByteStore.scanStart s start) := by
  obtain ⟨slots, hrange, _⟩ := s.log.index.exists_range_startingWith start
  have hscan : ByteStore.scanStart s start = (s.log.index.range (Interval.startingWith start) >>=
      fun slots => Failure.lift (s.log.readValues s.directory slots)) := rfl
  rw [hscan]
  refine FailsOnly.bind_ok hrange ?_
  apply FailsOnly.lift
  apply FailsOnly.mapM
  rintro ⟨k, slot⟩ _
  apply FailsOnly.map
  intro e he
  unfold Log.readValue at he
  dsimp only at he
  split at he
  · cases he
  · exact ⟨_, congrArg Failure.error (Except.error.inj he).symm⟩

/-- The open log is that of the directory, it counts all the bytes of its file, and the file
reaches to the end of every slot. -/
structure Legible (s : LogStore checksum) : Prop where
  current : s.directory.log = some s.log.file
  counted : s.Uncounted 0
  slots : ∀ k slot, s.log.index.bindings.get? k = some slot →
    slot.Within s.fileContents.length k

/-- A log that holds some entries is legible if its index is what they build up. -/
theorem legible_of_replay (hcurrent : s.directory.log = some s.log.file)
    (hmade : s.log.file < s.directory.files.length)
    (hcontents : s.fileContents = Recovery.layout checksum list)
    (hindex : s.log.index = (Recovery.replay list).1)
    (hlength : s.log.length = (Recovery.replay list).2) : s.Legible := by
  refine ⟨hcurrent, ⟨hmade, ?_⟩, fun k slot hslot => ?_⟩
  · rw [hcontents, hlength, Recovery.replay_snd checksum]
    rfl
  · rw [hindex] at hslot
    rw [hcontents]
    exact (Recovery.madeBy_of_get?_replay checksum hslot).within

/-- A store whose file consists of entries can read all of its values. -/
theorem Keeps.legible (h : s.Keeps list) : s.Legible :=
  legible_of_replay h.current h.made h.contents h.index h.length

/-- The directory of a store that can read all of its values is proper. -/
theorem Legible.proper (h : s.Legible) : s.directory.Proper :=
  Directory.proper_of_log h.current h.counted.made

/-- A change leaves a slot for its key at the end that the log knows, or none. -/
theorem get?_change_self (s : LogStore checksum) (e : Entry) :
    (s.change e).log.index.bindings.get? e.key =
      e.value.map fun v => ⟨s.log.length, UInt32.ofNat v.length⟩ := by
  cases hvalue : e.value with
  | some v =>
    have hindex : (s.change e).log.index =
        s.log.index.insert e.key ⟨s.log.length, UInt32.ofNat v.length⟩ := by
      rw [LogStore.change, ByteStore.change, hvalue]
      rfl
    rw [hindex]
    exact SortedMap.get?_insert.trans (if_pos rfl)
  | none =>
    cases hbound : ByteStore.has s e.key with
    | true =>
      rw [change_of_bound hvalue hbound]
      exact SortedMap.get?_erase.trans (if_pos rfl)
    | false =>
      rw [change_of_free hvalue hbound]
      have hfree : (s.log.index.bindings.get? e.key).isSome = false := hbound
      exact Option.not_isSome_iff_eq_none.mp (by simp [hfree])

/-- A change keeps a log legible. -/
theorem Legible.change (h : s.Legible) (e : Entry) : (s.change e).Legible := by
  have hgrows := grows_change h.counted.made e
  refine ⟨hgrows.current_eq h.current, h.counted.change e, fun k slot hslot => ?_⟩
  by_cases hkey : e.key = k
  · subst hkey
    obtain ⟨stamp, k, value⟩ := e
    rw [get?_change_self] at hslot
    cases value with
    | none => cases hslot
    | some v =>
      obtain rfl := Option.some.inj hslot
      have hcontents : (s.change ⟨stamp, k, some v⟩).fileContents =
          s.fileContents ++ (⟨stamp, k, some v⟩ : Entry).bytes checksum :=
        fileContents_set (s := { s with stamp := stamp }) h.counted.made
      rw [hcontents, List.length_append, Entry.length_bytes, h.counted.length]
      exact Entry.within stamp k v _
  · rw [(leaves_change h.counted.made hkey).slot] at hslot
    exact (h.slots k slot hslot).mono hgrows.contents.length_le

/-- All values of a legible log can be read. -/
theorem Legible.exists_readValues (h : s.Legible) {slots : List (Key × Slot)}
    (hslots : ∀ x ∈ slots, s.log.index.bindings.get? x.1 = some x.2) :
    ∃ found, s.log.readValues s.directory slots = .ok found := by
  apply FailsOnly.exists_ok
  apply FailsOnly.mapM
  rintro ⟨k, slot⟩ hmem
  apply FailsOnly.map
  exact .of_exists_ok ⟨_, readValue_eq (h.slots k slot (hslots _ hmem))⟩

/-- Compaction succeeds on a legible log and makes one. -/
theorem Legible.compact (h : s.Legible) (stamp : UInt32) :
    ∃ next, s.perform (.compact stamp) = .ok next ∧ next.Legible := by
  obtain ⟨live, hlive⟩ := h.exists_readValues fun x hx => SortedMap.get?_of_mem hx
  refine ⟨_, by simp only [perform, Log.compact, bind, Except.bind, hlive]; rfl, ?_⟩
  apply legible_of_replay rfl
  · exact Directory.length_files_replaceLog ▸ Nat.lt_succ_self _
  · exact Directory.contents_replaceLog
  · rfl
  · rfl

/-- Every action succeeds on a legible log and leaves one. -/
theorem Legible.perform (h : s.Legible) (action : LogAction) :
    ∃ next, s.perform action = .ok next ∧ next.Legible := by
  cases action with
  | change e => exact ⟨_, rfl, h.change e⟩
  | flush => exact ⟨s, rfl, h⟩
  | compact stamp => exact h.compact stamp
  | reopen stamp threshold =>
    obtain ⟨next, hnext, hkeeps⟩ := @exists_opened checksum _ h.proper stamp threshold
    exact ⟨next, hnext, hkeeps.legible⟩

/-- Every run of actions succeeds on a legible log and leaves one. -/
theorem Legible.performs (h : s.Legible) (actions : List LogAction) :
    ∃ next, actions.foldlM LogStore.perform s = .ok next ∧ next.Legible :=
  exists_foldlM (P := Legible) (fun action _ _ hs => hs.perform action) h

/-- A legible log can be listed. -/
theorem Legible.exists_scanStart (h : s.Legible) (start : Bytes) :
    ∃ found, ByteStore.scanStart s start = .ok found := by
  obtain ⟨slots, hrange, _, hmem⟩ := s.log.index.exists_range_startingWith start
  obtain ⟨found, hfound⟩ := h.exists_readValues fun x hx => ((hmem x.1 x.2).mp hx).1
  exact ⟨found, bind_eq_ok_iff.mpr ⟨slots, hrange, Failure.lift_eq_ok_iff.mpr hfound⟩⟩

end LogStore

/-- A key starts with given bytes exactly if it is not less than they are and, unless these are
all 255, less than the byte string beyond them. So a store in memory lists just the bindings
whose keys start with the bytes, in the order of the keys. A store that keeps a log does so as
well, whatever its directory holds when the log is opened and whatever is done then. And even in
a state that does not come about so, as with a file that has been cut while the log is open, it
lists these bindings or fails because a value cannot be read. -/
theorem ByteStore.scanStart_exact (start : Bytes) :
    (∀ k : Key, start <+: k ↔ (compare start k).isLE = true ∧
      (Interval.firstBeyond? start = none ∨
        ∃ above, Interval.firstBeyond? start = some above ∧ compare k above = .lt)) ∧
    (∀ m : Memory, ∃ found, scanStart m start = .ok found ∧ ListsStart m start found) ∧
    (∀ (checksum : Checksum) (d : Directory) (stamp : UInt32) (threshold : Option Float)
      (actions : List LogAction), d.Proper →
      ∃ first s : LogStore checksum, LogStore.opened checksum stamp d threshold = .ok first ∧
        actions.foldlM LogStore.perform first = .ok s ∧
        ∃ found, scanStart s start = .ok found ∧ ListsStart s start found) ∧
    ∀ (checksum : Checksum) (s : LogStore checksum),
      (∃ found, scanStart s start = .ok found ∧ ListsStart s start found) ∨
        ∃ detail, scanStart s start = .error (.error (.io detail)) := by
  refine ⟨fun k => ?_, fun m => m.exists_scanStart start,
    fun checksum d stamp threshold actions hproper => ?_, fun checksum s => ?_⟩
  · rw [Interval.prefix_iff, Interval.BelowBeyond]
    cases Interval.firstBeyond? start <;> simp
  · obtain ⟨first, hfirst, hkeeps⟩ := @LogStore.exists_opened checksum d hproper stamp threshold
    obtain ⟨s, hs, hlegible⟩ := hkeeps.legible.performs actions
    obtain ⟨found, hfound⟩ := hlegible.exists_scanStart start
    exact ⟨first, s, hfirst, hs, found, hfound, LogStore.listsStart_of_scanStart hfound⟩
  · cases hscan : scanStart s start with
    | ok found => exact .inl ⟨found, rfl, LogStore.listsStart_of_scanStart hscan⟩
    | error f =>
      obtain ⟨detail, rfl⟩ := LogStore.scanStart_failsOnly s start f hscan
      exact .inr ⟨detail, rfl⟩

example : Interval.firstBeyond? [1, 255] = some [2] := by decide

example : Interval.firstBeyond? [255, 255] = none := by decide

/-- Actions that bind keys just below, at and just beyond those that start with 97 and 255. -/
def borderActions : List LogAction :=
  [.change ⟨0, [97, 254, 255], some [1]⟩, .change ⟨1, [98], some [2]⟩,
    .change ⟨2, [97, 255, 255], some [3]⟩, .change ⟨3, [97, 255], some []⟩, .reopen 4 none,
    .change ⟨5, [97], some [4]⟩]

/-- The bytes that the file holds at first are too few for an entry. -/
theorem ByteStore.scanStart_exact_sample :
    (Directory.empty.replaceLog [1, 2, 3]).Proper ∧
      ∃ first s : LogStore Sha3.checksum,
        LogStore.opened Sha3.checksum 0 (Directory.empty.replaceLog [1, 2, 3]) none = .ok first ∧
        borderActions.foldlM LogStore.perform first = .ok s ∧
        ∃ found, scanStart s [97, 255] = .ok found ∧ ListsStart s [97, 255] found :=
  have hproper : (Directory.empty.replaceLog [1, 2, 3]).Proper := Directory.proper_replaceLog
  ⟨hproper, (scanStart_exact [97, 255]).2.2.1 Sha3.checksum _ 0 none borderActions hproper⟩

end RelationalStore
