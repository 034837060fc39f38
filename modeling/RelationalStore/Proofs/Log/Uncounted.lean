import RelationalStore.Proofs.Log.Survival

/-!
# Bytes that an open log does not count

An open log counts the bytes that it adds to its file, and looks for an entry where its
count was when it wrote the entry. The entry itself stands at the end of the file. So if
the file holds bytes that the log has not counted, the log reads as many bytes in front of
a value as it has not counted before it wrote the value. There are always enough bytes to
read, and bytes that come later do not matter.
-/

namespace RelationalStore

namespace LogStore

variable {checksum : Checksum} {s s' s'' : LogStore checksum} {list : List Entry} {e : Entry}
  {k : Key} {v : Bytes} {n : Nat}

/-- What the file of the open log holds. -/
def fileContents (s : LogStore checksum) : Bytes :=
  s.directory.contents s.log.file

/-- The file of the open log holds so many bytes that the log does not count. -/
structure Uncounted (s : LogStore checksum) (n : Nat) : Prop where
  made : s.log.file < s.directory.files.length
  length : s.fileContents.length = s.log.length + n

/-- From the one store to the other the file of the open log has only grown. -/
structure Grows (s s' : LogStore checksum) : Prop where
  file : s'.log.file = s.log.file
  current : s'.directory.log = s.directory.log
  contents : s.fileContents <+: s'.fileContents

/-- The file has only grown, and the log still looks for the value of the key where it did. -/
structure Leaves (k : Key) (s s' : LogStore checksum) : Prop extends Grows s s' where
  slot : s'.log.index.bindings.get? k = s.log.index.bindings.get? k

/-- A store whose file consists of its entries counts every byte. -/
theorem Keeps.uncounted (h : s.Keeps list) : s.Uncounted 0 := by
  refine ⟨h.made, ?_⟩
  rw [fileContents, h.contents, h.length, Recovery.replay_snd checksum]
  rfl

/-- Bytes that are appended stand at the end of what the file holds. -/
theorem fileContents_of_append (hmade : s.log.file < s.directory.files.length) {more : Bytes}
    (hfile : s'.log.file = s.log.file)
    (hdirectory : s'.directory = s.directory.append s.log.file more) :
    s'.log.file < s'.directory.files.length ∧ s'.fileContents = s.fileContents ++ more := by
  constructor
  · rw [hdirectory, hfile, Directory.append, Directory.length_files_write]
    exact hmade
  · rw [fileContents, fileContents, hdirectory, hfile, Directory.append,
      Directory.contents_write hmade]

/-- Binding a key puts its entry at the end of what the file holds. -/
theorem fileContents_set (hmade : s.log.file < s.directory.files.length) :
    (ByteStore.set s k v).fileContents =
      s.fileContents ++ (⟨s.stamp, k, some v⟩ : Entry).bytes checksum := by
  have hfile : (ByteStore.set s k v).log.file = s.log.file := rfl
  exact (fileContents_of_append hmade hfile rfl).2

/-- A change is counted. -/
theorem Uncounted.change (h : s.Uncounted n) (e : Entry) : (s.change e).Uncounted n := by
  obtain ⟨more, hdirectory, hfile, hlength⟩ := exists_change_append h.made e
  obtain ⟨hmade, hcontents⟩ := fileContents_of_append h.made hfile hdirectory
  refine ⟨hmade, ?_⟩
  rw [hcontents, hlength, List.length_append, h.length]
  omega

/-- Bytes that something else adds to the file are not counted. -/
theorem Uncounted.append (h : s.Uncounted n) {more : Bytes} (hlog : s'.log = s.log)
    (hdirectory : s'.directory = s.directory.append s.log.file more) :
    s'.Uncounted (n + more.length) := by
  obtain ⟨hmade, hcontents⟩ := fileContents_of_append h.made (congrArg Log.file hlog) hdirectory
  refine ⟨hmade, ?_⟩
  rw [hcontents, hlog, List.length_append, h.length]
  omega

/-- The file of a store has grown by nothing from the store to itself. -/
theorem Grows.refl (s : LogStore checksum) : Grows s s :=
  ⟨rfl, rfl, List.prefix_rfl⟩

/-- A file that grows twice has grown. -/
theorem Grows.trans (h : Grows s s') (h' : Grows s' s'') : Grows s s'' :=
  ⟨h'.file.trans h.file, h'.current.trans h.current, h.contents.trans h'.contents⟩

/-- A log that is that of its directory stays so while the file grows. -/
theorem Grows.current_eq (h : Grows s s') (hcurrent : s.directory.log = some s.log.file) :
    s'.directory.log = some s'.log.file := by
  rw [h.current, h.file, hcurrent]

/-- Where the open log is that of the directory, the log of the directory has only grown. -/
theorem Grows.logContents (h : Grows s s') (hcurrent : s.directory.log = some s.log.file) :
    s.directory.logContents <+: s'.directory.logContents := by
  rw [Directory.logContents_eq hcurrent, Directory.logContents_eq (h.current_eq hcurrent)]
  exact h.contents

/-- From the store to itself nothing changes for a key. -/
theorem Leaves.refl (k : Key) (s : LogStore checksum) : Leaves k s s :=
  ⟨Grows.refl s, rfl⟩

/-- What is left alone twice is left alone. -/
theorem Leaves.trans (h : Leaves k s s') (h' : Leaves k s' s'') : Leaves k s s'' :=
  ⟨h.toGrows.trans h'.toGrows, h'.slot.trans h.slot⟩

/-- A store that has appended to its file has only let it grow. -/
theorem grows_append (hmade : s.log.file < s.directory.files.length) {more : Bytes}
    (hfile : s'.log.file = s.log.file)
    (hdirectory : s'.directory = s.directory.append s.log.file more) : Grows s s' := by
  obtain ⟨_, hcontents⟩ := fileContents_of_append hmade hfile hdirectory
  exact ⟨hfile, hdirectory ▸ rfl, hcontents ▸ List.prefix_append _ _⟩

/-- A change only lets the file grow. -/
theorem grows_change (hmade : s.log.file < s.directory.files.length) (e : Entry) :
    Grows s (s.change e) := by
  obtain ⟨_, hdirectory, hfile, _⟩ := exists_change_append hmade e
  exact grows_append hmade hfile hdirectory

/-- Bytes that something else adds to the file leave every key. -/
theorem leaves_append (hmade : s.log.file < s.directory.files.length) {more : Bytes} (k : Key)
    (hlog : s'.log = s.log)
    (hdirectory : s'.directory = s.directory.append s.log.file more) : Leaves k s s' :=
  ⟨grows_append hmade (congrArg Log.file hlog) hdirectory, by rw [hlog]⟩

/-- A change leaves the other keys. -/
theorem leaves_change (hmade : s.log.file < s.directory.files.length) (hkey : e.key ≠ k) :
    Leaves k s (s.change e) := by
  refine ⟨grows_change hmade e, ?_⟩
  cases hvalue : e.value with
  | some v =>
    have hindex : (s.change e).log.index =
        s.log.index.insert e.key ⟨s.log.length, UInt32.ofNat v.length⟩ := by
      rw [LogStore.change, ByteStore.change, hvalue]
      rfl
    rw [hindex, KeyIndex.insert, SortedMap.get?_insert, if_neg (Ne.symm hkey)]
  | none =>
    cases hbound : ByteStore.has s e.key with
    | true =>
      rw [change_of_bound hvalue hbound]
      exact SortedMap.get?_erase.trans (if_neg (Ne.symm hkey))
    | false => rw [change_of_free hvalue hbound]

/-- As many bytes as the slot says are read from where the log looks for the value, if there
are so many. -/
theorem readValue_eq {slot : Slot}
    (hlength : slot.start + Entry.headerSize + k.length + slot.size.toNat ≤
      s.fileContents.length) :
    s.log.readValue s.directory k slot = .ok ((s.fileContents.drop
      (slot.start + Entry.headerSize + k.length)).take slot.size.toNat) := by
  apply readValue_of_holds
  constructor
  · rw [List.length_take, List.length_drop]
    omega
  · exact List.take_prefix _ _

/-- What is read for a value that was bound while the file held bytes that the log did not
count: it stands so many bytes in front of the value. -/
theorem Uncounted.get_eq (h : s.Uncounted n) (hroom : v.length < UInt32.size)
    (hleaves : Leaves k (ByteStore.set s k v) s') :
    let place := s.fileContents.length + Entry.headerSize + k.length
    v <+: s'.fileContents.drop place ∧
      ByteStore.get s' k = .ok (some ((s'.fileContents.drop (place - n)).take v.length)) := by
  intro place
  have hbound : (ByteStore.set s k v).fileContents.drop place = v := by
    rw [fileContents_set h.made]
    exact @Recovery.drop_bytes_of_value checksum ⟨s.stamp, k, some v⟩ v rfl s.fileContents
  have hend : place + v.length = (ByteStore.set s k v).fileContents.length := by
    rw [fileContents_set h.made, List.length_append, Entry.length_bytes]
    simp only [place, Entry.size, Option.getD_some]
    omega
  obtain ⟨more, hmore⟩ := hleaves.contents
  constructor
  · rw [← hmore, List.drop_append, hbound]
    exact List.prefix_append v _
  · -- the log looks for the value where its count was
    have hslot : s'.log.index.bindings.get? k =
        some ⟨s.log.length, UInt32.ofNat v.length⟩ := by
      rw [hleaves.slot]
      exact SortedMap.get?_insert.trans (if_pos rfl)
    have hsize : (UInt32.ofNat v.length).toNat = v.length := UInt32.toNat_ofNat_of_lt' hroom
    have hstart : s.log.length + Entry.headerSize + k.length = place - n := by
      have hlength := h.length
      omega
    have hlong : place - n + v.length ≤ s'.fileContents.length := by
      have hgrown := hleaves.contents.length_le
      omega
    have hget : ByteStore.get s' k = s'.log.get s'.directory k := rfl
    have hread := @readValue_eq checksum s' k ⟨s.log.length, UInt32.ofNat v.length⟩
      (by simpa only [hsize, hstart] using hlong)
    simp only [hsize, hstart] at hread
    rw [hget, Log.get, hslot]
    simp only [hread, Except.map]

/-- Nothing is in front of a value that was bound while every byte was counted. -/
theorem Uncounted.get_eq_value (h : s.Uncounted 0) (hroom : v.length < UInt32.size)
    (hleaves : Leaves k (ByteStore.set s k v) s') : ByteStore.get s' k = .ok (some v) := by
  obtain ⟨hstands, hget⟩ := h.get_eq hroom hleaves
  rw [hget, Nat.sub_zero, ← List.prefix_iff_eq_take.mp hstands]

/-- What was bound in a log without uncounted bytes is read as long as it is left. -/
theorem Keeps.get_of_leaves (h : s.Keeps list) (hleaves : Leaves k s s') :
    ByteStore.get s' k = ByteStore.get s k := by
  have hpaired := (Recovery.replay_paired checksum h.fits).1
  have hbefore : ByteStore.get s k = s.log.get s.directory k := rfl
  have hafter : ByteStore.get s' k = s'.log.get s'.directory k := rfl
  rw [hbefore, hafter, Log.get, Log.get, hleaves.slot, h.index]
  rcases hpaired.get? k with ⟨hslot, _⟩ | ⟨k', slot, v, hk, hslot, _, hholds⟩
  · rw [hslot]
  · obtain rfl : k = k' := Std.LawfulEqCmp.eq_of_compare hk
    obtain ⟨more, hmore⟩ := hleaves.contents
    have hgrown : slot.Holds s'.fileContents k v := by
      rw [← hmore, fileContents, h.contents]
      exact hholds.append more
    simp only [hslot, h.readValue_eq hholds, readValue_of_holds hgrown]

/-- When the log is opened again, what was kept is found, and then what is read off the bytes
that the file has grown by. -/
theorem Keeps.ofDirectory_of_grows (h : s.Keeps list) (hgrows : Grows s s')
    (hmade : s'.log.file < s'.directory.files.length) (stamp : UInt32) :
    (ofDirectory checksum stamp s'.directory).Keeps (list ++ Recovery.entries checksum
      (s'.directory.logContents.drop (Recovery.layout checksum list).length)) := by
  have hcurrent := hgrows.current_eq h.current
  have hproper := Directory.proper_of_log hcurrent hmade
  obtain ⟨more, hmore⟩ := hgrows.logContents h.current
  rw [h.logContents_eq] at hmore
  have hcontents := hmore.symm
  rw [← hmore, List.drop_left]
  exact h.ofDirectory_append hproper hcontents stamp

end LogStore

end RelationalStore
