import RelationalStore.Log.Basic
import RelationalStore.Proofs.Log.Recovery
import RelationalStore.Proofs.Result

/-!
# The entries that an open log keeps

An open log keeps a list of entries: its file holds their bytes and nothing else, and what
it knows is what they build up. Each operation takes it from one list to another. What the
log answers is what a store in memory answers after the changes that the entries record.
-/

namespace RelationalStore

namespace Directory

variable {d : Directory} {file : Nat} {bytes : Bytes}

/-- The file that is the log, if there is one, has been made. -/
def Proper (d : Directory) : Prop :=
  ∀ file, d.log = some file → file < d.files.length

/-- An empty directory has no log that could be missing. -/
theorem proper_empty : empty.Proper := by simp [Proper, empty]

/-- A directory whose log is a file that has been made is proper. -/
theorem proper_of_log (hlog : d.log = some file) (hmade : file < d.files.length) : d.Proper := by
  intro other hother
  obtain rfl := Option.some.inj (hlog.symm.trans hother)
  exact hmade

/-- A file that has been made holds what was last written to it. -/
theorem contents_write (h : file < d.files.length) : (d.write file bytes).contents file = bytes := by
  simp [contents, write, h]

/-- Writing to a file what it holds changes nothing. -/
theorem write_contents (h : file < d.files.length) : d.write file (d.contents file) = d := by
  simp [write, contents, h]

/-- Writing to a file makes no new one. -/
theorem length_files_write : (d.write file bytes).files.length = d.files.length := by
  simp [write]

/-- The new file of a log that is replaced holds the new bytes. -/
theorem contents_replaceLog : (d.replaceLog bytes).contents d.files.length = bytes := by
  simp [contents, replaceLog]

/-- Replacing the log makes one new file. -/
theorem length_files_replaceLog : (d.replaceLog bytes).files.length = d.files.length + 1 := by
  simp [replaceLog]

/-- The log holds what its file holds. -/
theorem logContents_eq (h : d.log = some file) : d.logContents = d.contents file := by
  rw [logContents, h]

/-- A directory has a log once it is asked for it, which holds what was there. -/
theorem Proper.withLog (h : d.Proper) :
    d.withLog.1.log = some d.withLog.2 ∧ d.withLog.2 < d.withLog.1.files.length ∧
      d.withLog.1.contents d.withLog.2 = d.logContents := by
  unfold Directory.withLog
  cases hlog : d.log with
  | some file => exact ⟨hlog, h file hlog, (logContents_eq hlog).symm⟩
  | none =>
    have hnew : (d.replaceLog []).contents d.files.length = d.logContents := by
      rw [contents_replaceLog, logContents, hlog]
    exact ⟨rfl, length_files_replaceLog ▸ Nat.lt_succ_self _, hnew⟩

end Directory

namespace LogStore

variable {checksum : Checksum} {s : LogStore checksum} {list : List Entry} {e : Entry}

/-- The file of the store holds exactly the bytes of these entries, and the open log knows
what they build up. -/
structure Keeps (s : LogStore checksum) (list : List Entry) : Prop where
  fits : ∀ e ∈ list, e.Fits
  /-- The open log is that of the directory. -/
  current : s.directory.log = some s.log.file
  made : s.log.file < s.directory.files.length
  contents : s.directory.contents s.log.file = Recovery.layout checksum list
  index : s.log.index = (Recovery.replay list).1
  length : s.log.length = (Recovery.replay list).2

/-- The store that opens the log of a directory. -/
def ofDirectory (checksum : Checksum) (stamp : UInt32) (d : Directory) : LogStore checksum :=
  ⟨(Log.recover checksum d).1, (Log.recover checksum d).2, stamp⟩

/-- Makes the change that an entry records, at the time that it bears. -/
def change (s : LogStore checksum) (e : Entry) : LogStore checksum :=
  ByteStore.change { s with stamp := e.stamp } e

/-- The entries that still are needed, written at one time. -/
def needed (stamp : UInt32) (list : List Entry) : List Entry :=
  (Memory.afterChanges list).index.bindings.entries.map fun (k, v) => ⟨stamp, k, some v⟩

/-- The log of the directory holds the bytes of the entries that are kept. -/
theorem Keeps.logContents_eq (h : s.Keeps list) :
    s.directory.logContents = Recovery.layout checksum list := by
  rw [Directory.logContents_eq h.current, h.contents]

/-- The directory of a store that keeps entries is proper. -/
theorem Keeps.proper (h : s.Keeps list) : s.directory.Proper :=
  Directory.proper_of_log h.current h.made

/-- What is kept does not depend on the time. -/
theorem Keeps.withStamp (h : s.Keeps list) (stamp : UInt32) :
    ({ s with stamp := stamp } : LogStore checksum).Keeps list :=
  ⟨h.fits, h.current, h.made, h.contents, h.index, h.length⟩

/-- Opening a log keeps the entries at its start, and cuts off what follows them. -/
theorem keeps_ofDirectory {d : Directory} (hproper : d.Proper) (stamp : UInt32) :
    (ofDirectory checksum stamp d).Keeps (Recovery.entries checksum d.logContents) := by
  obtain ⟨hcurrent, hmade, hcontents⟩ := hproper.withLog
  obtain ⟨⟨rest, hstarts⟩, hfits⟩ := Recovery.layout_entries_prefix checksum d.logContents
  have hcut : d.logContents.take
      (Recovery.replay (Recovery.entries checksum d.logContents)).2 =
        Recovery.layout checksum (Recovery.entries checksum d.logContents) := by
    rw [Recovery.replay_snd checksum]
    nth_rewrite 2 [← hstarts]
    exact List.take_left
  refine ⟨hfits, hcurrent, ?_, ?_, ?_, ?_⟩
  · exact Directory.length_files_write.symm ▸ hmade
  · simp only [ofDirectory, Log.recover, hcontents]
    rw [Directory.contents_write hmade, hcut]
  · simp only [ofDirectory, Log.recover, hcontents]
  · simp only [ofDirectory, Log.recover, hcontents]

/-- Opening the log that a store keeps changes nothing but the time. -/
theorem Keeps.ofDirectory_eq (h : s.Keeps list) (stamp : UInt32) :
    ofDirectory checksum stamp s.directory = { s with stamp := stamp } := by
  have hopen : s.directory.withLog = (s.directory, s.log.file) := by
    simp only [Directory.withLog, h.current]
  have hentries : Recovery.entries checksum (s.directory.contents s.log.file) = list := by
    rw [h.contents, Recovery.entries_layout h.fits]
  have hall : (s.directory.contents s.log.file).take (Recovery.replay list).2 =
      s.directory.contents s.log.file := by
    rw [Recovery.replay_snd checksum, h.contents, List.take_length]
  have hlog : s.log = ⟨s.log.file, (Recovery.replay list).1, (Recovery.replay list).2⟩ := by
    rw [← h.index, ← h.length]
  simp only [ofDirectory, Log.recover, hopen, hentries, hall, Directory.write_contents h.made,
    ← hlog]

/-- Opening the log of an empty directory makes one without entries. -/
theorem keeps_ofDirectory_empty (stamp : UInt32) :
    (ofDirectory checksum stamp Directory.empty).Keeps [] := by
  have hopened : (ofDirectory checksum stamp Directory.empty).Keeps
      (Recovery.entries checksum Directory.empty.logContents) :=
    keeps_ofDirectory Directory.proper_empty stamp
  rwa [Directory.logContents, Directory.empty,
    Recovery.entries_of_read?_eq_none Recovery.read?_nil] at hopened

/-- An entry is written at the end. -/
theorem Keeps.append (h : s.Keeps list) (hfits : e.Fits) {next : LogStore checksum}
    (hdirectory : next.directory = s.directory.append s.log.file (e.bytes checksum))
    (hfile : next.log.file = s.log.file)
    (hlength : next.log.length = s.log.length + (e.bytes checksum).length)
    (hindex : next.log.index = (Recovery.applyEntry (Recovery.replay list) e).1) :
    next.Keeps (list ++ [e]) := by
  refine ⟨?_, ?_, ?_, ?_, ?_, ?_⟩
  · intro e' he'
    rcases List.mem_append.mp he' with he' | he'
    · exact h.fits e' he'
    · exact List.mem_singleton.mp he' ▸ hfits
  · rw [hdirectory, hfile]
    exact h.current
  · rw [hdirectory, hfile, Directory.append, Directory.length_files_write]
    exact h.made
  · rw [hdirectory, hfile, Directory.append, Directory.contents_write h.made, h.contents,
      Recovery.layout_concat]
  · rw [hindex, Recovery.replay_concat]
  · rw [hlength, h.length, Recovery.replay_concat, e.length_bytes, Recovery.applyEntry]

/-- A key is bound in the store exactly if the entries bind it. -/
theorem Keeps.has_eq (h : s.Keeps list) (k : Key) :
    ByteStore.has s k = ByteStore.has (Memory.afterChanges list) k := by
  have hpaired := (Recovery.replay_paired checksum h.fits).1
  have hindex : ByteStore.has s k = (Recovery.replay list).1.bindings.contains k :=
    congrArg (fun index : KeyIndex Slot => index.bindings.contains k) h.index
  rw [hindex, hpaired.contains_eq k]
  rfl

/-- Unbinding a key that is bound writes an entry and takes the key out of the index. -/
theorem change_of_bound (hvalue : e.value = none) (hbound : ByteStore.has s e.key = true) :
    s.change e = LogStore.step { s with stamp := e.stamp }
      ((s.log.append checksum s.directory e).1,
        { (s.log.append checksum s.directory e).2 with index := s.log.index.erase e.key }) := by
  obtain ⟨stamp, k, value⟩ := e
  obtain rfl : value = none := hvalue
  have hkey : s.log.index.bindings.contains k = true := hbound
  simp [LogStore.change, ByteStore.change, ByteStore.delete, Log.delete, hkey]

/-- Unbinding a key that is not bound writes nothing. -/
theorem change_of_free (hvalue : e.value = none) (hfree : ByteStore.has s e.key = false) :
    s.change e = { s with stamp := e.stamp } := by
  have hkey : s.log.index.bindings.contains e.key = false := hfree
  simp [LogStore.change, ByteStore.change, hvalue, ByteStore.delete, Log.delete, hkey,
    LogStore.step]

/-- A change is written down, unless it unbinds a key that is not bound. -/
theorem Keeps.change (h : s.Keeps list) (hfits : e.Fits)
    (hwrites : e.value = none → ByteStore.has s e.key = true) :
    (s.change e).Keeps (list ++ [e]) := by
  have happlied : (Recovery.applyEntry (s.log.index, s.log.length) e).1 =
      (Recovery.applyEntry (Recovery.replay list) e).1 := by
    rw [h.index, h.length]
  cases hvalue : e.value with
  | some v =>
    obtain ⟨stamp, k, value⟩ := e
    obtain rfl : value = some v := hvalue
    exact h.append hfits rfl rfl rfl happlied
  | none =>
    rw [change_of_bound hvalue (hwrites hvalue)]
    refine h.append hfits rfl rfl rfl ?_
    rw [← happlied, Recovery.applyEntry, hvalue]
    rfl

/-- Unbinding a key that is not bound leaves the file as it is. -/
theorem Keeps.change_idle (h : s.Keeps list) (hvalue : e.value = none)
    (hfree : ByteStore.has s e.key = false) : (s.change e).Keeps list := by
  rw [change_of_free hvalue hfree]
  exact h.withStamp e.stamp

/-- The value that stands at a slot is read there. -/
theorem readValue_of_holds {k : Key} {slot : Slot} {v : Bytes}
    (hholds : slot.Holds (s.directory.contents s.log.file) k v) :
    s.log.readValue s.directory k slot = .ok v := by
  obtain ⟨hlength, rest, hrest⟩ := hholds
  have hsplit : Bytes.split? slot.size.toNat
      ((s.directory.contents s.log.file).drop (slot.start + Entry.headerSize + k.length)) =
        some (v, rest) := by
    rw [← hrest]
    exact Bytes.split?_eq_some_iff.mpr ⟨rfl, hlength.symm⟩
  simp only [Log.readValue, hsplit]

/-- A value that stands at a slot in the bytes of the entries is read off the file. -/
theorem Keeps.readValue_eq (h : s.Keeps list) {k : Key} {slot : Slot} {v : Bytes}
    (hholds : slot.Holds (Recovery.layout checksum list) k v) :
    s.log.readValue s.directory k slot = .ok v :=
  readValue_of_holds (h.contents.symm ▸ hholds)

/-- Values that stand at their slots in the bytes of the entries are read off the file. -/
theorem Keeps.readValues_eq (h : s.Keeps list) {slots : List (Key × Slot)}
    {values : List (Key × Bytes)}
    (hpaired : List.Forall₂ (fun e e' => e.1 = e'.1 ∧
      Slot.Holds (Recovery.layout checksum list) e.1 e.2 e'.2) slots values) :
    s.log.readValues s.directory slots = .ok values := by
  refine mapM_eq_ok_iff.mpr (hpaired.imp ?_)
  rintro ⟨k, slot⟩ ⟨k', v⟩ ⟨hkey, hholds⟩
  obtain rfl : k = k' := hkey
  simp only [h.readValue_eq hholds, Except.map]

/-- A key has the value to which the entries bind it. -/
theorem Keeps.get_eq (h : s.Keeps list) (k : Key) :
    ByteStore.get s k = ByteStore.get (Memory.afterChanges list) k := by
  have hpaired := (Recovery.replay_paired checksum h.fits).1
  have hlog : ByteStore.get s k = s.log.get s.directory k := rfl
  have hmemory : ByteStore.get (Memory.afterChanges list) k =
      .ok ((Memory.afterChanges list).index.bindings.get? k) := rfl
  rw [hlog, hmemory, Log.get, h.index]
  rcases hpaired.get? k with ⟨hslot, hvalue⟩ | ⟨k', slot, v, hk, hslot, hvalue, hholds⟩
  · rw [hslot, hvalue]
  · obtain rfl : k = k' := Std.LawfulEqCmp.eq_of_compare hk
    simp only [hslot, hvalue, h.readValue_eq hholds, Except.map]

/-- A scan lists what the entries bind in the interval. -/
theorem Keeps.scan_eq (h : s.Keeps list) (interval : Interval) :
    ByteStore.scan s interval = ByteStore.scan (Memory.afterChanges list) interval := by
  obtain ⟨hpaired, hused⟩ := Recovery.replay_paired checksum h.fits
  have hlog : ByteStore.scan s interval = s.log.scan s.directory interval := rfl
  have hmemory : ByteStore.scan (Memory.afterChanges list) interval =
      (Memory.afterChanges list).index.range interval := rfl
  rw [hlog, hmemory, Log.scan, h.index, KeyIndex.range, KeyIndex.range, hused]
  split
  · rfl
  · have hread := h.readValues_eq (hpaired.filter interval.contains)
    simp only [bind, Except.bind, hread, Failure.lift_ok]

/-- A scan lists what the entries bind to keys that start with the given bytes. -/
theorem Keeps.scanStart_eq (h : s.Keeps list) (start : Bytes) :
    ByteStore.scanStart s start = ByteStore.scanStart (Memory.afterChanges list) start :=
  h.scan_eq (Interval.startingWith start)

/-- As many keys are counted as the entries bind. -/
theorem Keeps.totalCount_eq (h : s.Keeps list) :
    (ByteStore.usage s).totalCount = (ByteStore.usage (Memory.afterChanges list)).totalCount := by
  have hpaired := (Recovery.replay_paired checksum h.fits).1
  have hlog : (ByteStore.usage s).totalCount = s.log.index.bindings.size := rfl
  rw [hlog, h.index, hpaired.size_eq]
  rfl

/-- The logical size is that of the keys and values which the entries bind. -/
theorem Keeps.logicalSize_eq (h : s.Keeps list) :
    (ByteStore.usage s).logicalSize =
      (ByteStore.usage (Memory.afterChanges list)).logicalSize := by
  have hpaired := (Recovery.replay_paired checksum h.fits).1
  have hlog : (ByteStore.usage s).logicalSize =
      s.log.index.bindings.entries.foldr (fun e n => e.1.length + e.2.size.toNat + n) 0 := rfl
  have hmemory : (ByteStore.usage (Memory.afterChanges list)).logicalSize =
      (Memory.afterChanges list).index.bindings.entries.foldr
        (fun e n => e.1.length + e.2.length + n) 0 := rfl
  rw [hlog, hmemory, h.index]
  unfold SortedMap.Paired at hpaired
  generalize (Recovery.replay list).1.bindings.entries = slots at hpaired ⊢
  generalize (Memory.afterChanges list).index.bindings.entries = values at hpaired ⊢
  induction hpaired with
  | nil => rfl
  | cons hfirst _ ih => rw [List.foldr_cons, List.foldr_cons, ih, hfirst.1, hfirst.2.1]

/-- What is bound after some changes was bound by one of them. -/
theorem exists_entry_of_bound {x : Key × Bytes}
    (hx : x ∈ (Memory.afterChanges list).index.bindings.entries) :
    ∃ e ∈ list, e.key = x.1 ∧ e.value = some x.2 := by
  induction list using List.reverseRecOn with
  | nil => cases hx
  | append_singleton list e ih =>
    have hbefore (hx : x ∈ (Memory.afterChanges list).index.bindings.entries) :
        ∃ e' ∈ list ++ [e], e'.key = x.1 ∧ e'.value = some x.2 := by
      obtain ⟨e', he', hfound⟩ := ih hx
      exact ⟨e', List.mem_append_left _ he', hfound⟩
    rw [Memory.afterChanges_concat, ByteStore.change] at hx
    cases hvalue : e.value with
    | none =>
      rw [hvalue] at hx
      exact hbefore (List.mem_filter.mp hx).1
    | some v =>
      rw [hvalue] at hx
      rcases SortedMap.mem_of_mem_insertEntry hx with rfl | hx
      · exact ⟨e, List.mem_append_right _ List.mem_cons_self, rfl, hvalue⟩
      · exact hbefore hx

/-- A key that is bound has room in its field. -/
theorem Keeps.length_lt_of_has (h : s.Keeps list) {k : Key} (hbound : ByteStore.has s k = true) :
    k.length < UInt32.size := by
  have hmem : k ∈ (Memory.afterChanges list).index.bindings.keys :=
    SortedMap.mem_keys_iff_contains.mpr ((h.has_eq k).symm.trans hbound)
  obtain ⟨x, hx, rfl⟩ := List.mem_map.mp hmem
  obtain ⟨e, he, hkey, _⟩ := exists_entry_of_bound hx
  exact hkey ▸ (h.fits e he).key

/-- After a change, entries are kept that make the same change in memory. Only what binds a
key has to fit. -/
theorem Keeps.exists_change (h : s.Keeps list) (hfits : ∀ v, e.value = some v → e.Fits) :
    ∃ list', (s.change e).Keeps list' ∧
      Memory.afterChanges list' = ByteStore.change (Memory.afterChanges list) e := by
  cases hvalue : e.value with
  | some v =>
    have hwrites : e.value = none → ByteStore.has s e.key = true := by simp [hvalue]
    exact ⟨list ++ [e], h.change (hfits v hvalue) hwrites, Memory.afterChanges_concat list e⟩
  | none =>
    by_cases hbound : ByteStore.has s e.key = true
    · have hroom : e.Fits := ⟨h.length_lt_of_has hbound, by simp [hvalue]⟩
      exact ⟨list ++ [e], h.change hroom fun _ => hbound, Memory.afterChanges_concat list e⟩
    · have hfree := Bool.eq_false_iff.mpr hbound
      refine ⟨list, h.change_idle hvalue hfree, ?_⟩
      have hunbound : (Memory.afterChanges list).index.bindings.contains e.key = false :=
        (h.has_eq e.key).symm.trans hfree
      have hsame := SortedMap.erase_eq_self hunbound
      simp only [ByteStore.change, hvalue, ByteStore.delete, KeyIndex.erase, hsame]

/-- An entry that still is needed has room because it had room before. -/
theorem fits_of_mem_needed (hfits : ∀ e ∈ list, e.Fits) {stamp : UInt32}
    (he : e ∈ needed stamp list) : e.Fits := by
  obtain ⟨x, hx, rfl⟩ := List.mem_map.mp he
  obtain ⟨e', he', hkey, hvalue⟩ := exists_entry_of_bound hx
  have hlength : x.1.length < UInt32.size := hkey ▸ (hfits e' he').key
  exact ⟨hlength, fun v hv => (hfits e' he').value v (hvalue.trans hv)⟩

/-- Binding keys one after another binds them in the index, which remembers that it was
asked to if there was one. -/
theorem foldl_change_map (stamp : UInt32) (bindings : List (Key × Bytes)) (m : Memory) :
    (bindings.map fun (k, v) => (⟨stamp, k, some v⟩ : Entry)).foldl ByteStore.change m =
      ⟨⟨bindings.foldl (fun n x => n.insert x.1 x.2) m.index.bindings,
        m.index.used || !bindings.isEmpty⟩⟩ := by
  induction bindings generalizing m with
  | nil => simp
  | cons x bindings ih =>
    rw [List.map_cons, List.foldl_cons, ih, List.foldl_cons]
    simp [ByteStore.change, ByteStore.set, KeyIndex.insert]

/-- The entries that still are needed bind what was bound. -/
theorem afterChanges_needed (stamp : UInt32) (list : List Entry) :
    (Memory.afterChanges (needed stamp list)).index.bindings =
        (Memory.afterChanges list).index.bindings ∧
      ((Memory.afterChanges (needed stamp list)).index.used = true ↔
        (Memory.afterChanges list).index.bindings.entries ≠ []) := by
  have hneeded := foldl_change_map stamp (Memory.afterChanges list).index.bindings.entries
    Memory.empty
  rw [← needed, ← Memory.afterChanges] at hneeded
  rw [hneeded]
  refine ⟨SortedMap.ofList_entries, ?_⟩
  simp [Memory.empty, KeyIndex.empty]

/-- Compaction succeeds, and keeps just the entries that still are needed. -/
theorem Keeps.compact (h : s.Keeps list) (stamp : UInt32) :
    ∃ next, s.log.compact checksum stamp s.directory = .ok next ∧
      (⟨next.1, next.2, stamp⟩ : LogStore checksum).Keeps (needed stamp list) := by
  have hpaired := (Recovery.replay_paired checksum h.fits).1
  have hread : s.log.readValues s.directory s.log.index.bindings.entries =
      .ok (Memory.afterChanges list).index.bindings.entries := by
    rw [h.index]
    exact h.readValues_eq hpaired
  refine ⟨_, by simp only [Log.compact, bind, Except.bind, hread]; rfl, ?_⟩
  refine ⟨fun e he => fits_of_mem_needed h.fits he, rfl, ?_, ?_, rfl, rfl⟩
  · exact Directory.length_files_replaceLog ▸ Nat.lt_succ_self _
  · exact Directory.contents_replaceLog

end LogStore

end RelationalStore
