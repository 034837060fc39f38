import Mathlib.Algebra.GroupWithZero.Nat
import RelationalStore.Proofs.Log.Uncounted

/-!
# Two logs open on one directory

Nothing keeps the log of a directory from being opened twice. Both logs then write to one
file, but neither counts what the other writes. So the file holds every entry, in the order
in which they were written, and all of them are found when the log is opened again. But a
log reads a value that it has bound only if the other one had written nothing before that,
since otherwise it reads as many bytes in front of the value as the other one had written.
-/

namespace RelationalStore

/-- Which of the two logs. -/
inductive Opener where
  | first
  | second
  deriving DecidableEq

/-- A key that is bound through one of the two logs. -/
structure Write where
  opener : Opener
  stamp : UInt32
  key : Key
  value : Bytes

/-- The entry that is written. -/
def Write.entry (w : Write) : Entry :=
  ⟨w.stamp, w.key, some w.value⟩

/-- A directory with two open logs. -/
structure Shared (checksum : Checksum) where
  directory : Directory
  logs : Opener → Log

namespace Shared

variable {checksum : Checksum} {shared : Shared checksum} {s : LogStore checksum}
  {o : Opener} {stamp : UInt32} {file n : Nat} {list : List Entry} {w : Write} {k : Key}

/-- The store that one of the logs keeps, at some time. -/
def store (shared : Shared checksum) (o : Opener) (stamp : UInt32) : LogStore checksum :=
  ⟨shared.directory, shared.logs o, stamp⟩

/-- The directory of an open log after its log has been opened once more. -/
def openSecond (s : LogStore checksum) : Shared checksum :=
  let second : LogStore checksum := LogStore.ofDirectory checksum s.stamp s.directory
  ⟨second.directory, fun | .first => s.log | .second => second.log⟩

/-- Binds a key through one of the logs. -/
def set (shared : Shared checksum) (w : Write) : Shared checksum :=
  let next := ByteStore.set (shared.store w.opener w.stamp) w.key w.value
  ⟨next.directory, fun o => if o = w.opener then next.log else shared.logs o⟩

/-- Binds keys one after another. -/
def setAll (shared : Shared checksum) (writes : List Write) : Shared checksum :=
  writes.foldl set shared

/-- What a key is bound to in one of the logs. Asking changes nothing. -/
def get (shared : Shared checksum) (o : Opener) (k : Key) : Except Error (Option Bytes) :=
  ByteStore.get (shared.store o 0) k

/-- The number of bytes that the other log writes. -/
def foreign (o : Opener) (writes : List Write) : Nat :=
  ((writes.filter fun w => w.opener ≠ o).map fun w => w.entry.size).sum

/-- The first write counts for the log that does not make it. -/
theorem foreign_cons (w : Write) (writes : List Write) :
    foreign o (w :: writes) = (if w.opener = o then 0 else w.entry.size) + foreign o writes := by
  by_cases hown : w.opener = o <;> simp [foreign, hown]

/-- A log that makes all writes itself misses none of their bytes. -/
theorem foreign_eq_zero {writes : List Write} (hown : ∀ w ∈ writes, w.opener = o) :
    foreign o writes = 0 := by
  have hnone : writes.filter (fun w => w.opener ≠ o) = [] := by
    apply List.filter_eq_nil_iff.mpr
    intro w hw
    simp [hown w hw]
  rw [foreign, hnone]
  rfl

/-- Both logs are of one file, which is the log of the directory and holds the bytes of these
entries. -/
structure Holds (shared : Shared checksum) (file : Nat) (list : List Entry) : Prop where
  current : shared.directory.log = some file
  made : file < shared.directory.files.length
  files : ∀ o, (shared.logs o).file = file
  contents : shared.directory.contents file = Recovery.layout checksum list

/-- A log is opened although it is open already, and both count every byte. -/
theorem store_openSecond (h : s.Keeps list) (o : Opener) :
    (openSecond s).store o stamp = { s with stamp := stamp } := by
  have hsecond := h.ofDirectory_eq s.stamp
  simp only [openSecond, store, hsecond]
  cases o <;> rfl

/-- After a log has been opened once more, both logs are of the file that holds its entries. -/
theorem holds_openSecond (h : s.Keeps list) : (openSecond s).Holds s.log.file list := by
  have hstore (o : Opener) : (openSecond s).store o 0 = { s with stamp := 0 } :=
    store_openSecond h o
  have hdirectory : (openSecond s).directory = s.directory := by
    change ((openSecond s).store .first 0).directory = s.directory
    rw [hstore .first]
  refine ⟨?_, ?_, fun o => ?_, ?_⟩
  · exact hdirectory ▸ h.current
  · exact hdirectory ▸ h.made
  · exact congrArg (fun s : LogStore checksum => s.log.file) (hstore o)
  · exact hdirectory ▸ h.contents

/-- What is written through a log is added to the file. -/
theorem Holds.directory_set (h : shared.Holds file list) (w : Write) :
    (shared.set w).directory = shared.directory.append file (w.entry.bytes checksum) := by
  rw [← h.files w.opener]
  rfl

/-- Whichever log binds a key, its entry is put at the end of the file. -/
theorem Holds.set (h : shared.Holds file list) (w : Write) :
    (shared.set w).Holds file (list ++ [w.entry]) := by
  have hdirectory := h.directory_set w
  refine ⟨?_, ?_, fun o => ?_, ?_⟩
  · rw [hdirectory]
    exact h.current
  · rw [hdirectory, Directory.append, Directory.length_files_write]
    exact h.made
  · by_cases hown : o = w.opener
    · simp only [Shared.set, if_pos hown]
      exact h.files w.opener
    · simp only [Shared.set, if_neg hown]
      exact h.files o
  · rw [hdirectory, Directory.append, Directory.contents_write h.made, h.contents,
      Recovery.layout_concat]

/-- Whichever logs bind keys, the entries are put at the end of the file, in their order. -/
theorem Holds.setAll (h : shared.Holds file list) (writes : List Write) :
    (shared.setAll writes).Holds file (list ++ writes.map Write.entry) := by
  induction writes generalizing shared list with
  | nil =>
    rw [List.map_nil, List.append_nil]
    exact h
  | cons w writes ih =>
    have hrest := ih (h.set w)
    rwa [List.append_assoc, List.singleton_append] at hrest

/-- Through a log of its own, a write is a change of the store. -/
theorem store_set_self : (shared.set w).store w.opener stamp =
    { ByteStore.set (shared.store w.opener w.stamp) w.key w.value with stamp := stamp } := by
  simp only [store, set, if_true]

/-- What one log writes the other does not notice. -/
theorem log_set_of_ne (hother : o ≠ w.opener) :
    ((shared.set w).store o stamp).log = (shared.store o stamp).log :=
  if_neg hother

/-- A log does not count what the other one writes. -/
theorem Holds.uncounted_set (h : shared.Holds file list)
    (hcount : (shared.store o stamp).Uncounted n) :
    ((shared.set w).store o stamp).Uncounted
      (n + if w.opener = o then 0 else w.entry.size) := by
  by_cases hown : w.opener = o
  · subst hown
    have hchange := hcount.change w.entry
    rw [if_pos rfl, Nat.add_zero, store_set_self]
    exact ⟨hchange.made, hchange.length⟩
  · have hdirectory := h.directory_set w
    rw [← h.files o] at hdirectory
    have hforeign := hcount.append (log_set_of_ne (Ne.symm hown)) hdirectory
    rw [Entry.length_bytes] at hforeign
    rwa [if_neg hown]

/-- Each log misses the bytes that the other has written. -/
theorem Holds.uncounted_setAll (h : shared.Holds file list) (writes : List Write)
    (hcount : (shared.store o stamp).Uncounted n) :
    ((shared.setAll writes).store o stamp).Uncounted (n + foreign o writes) := by
  induction writes generalizing shared list n with
  | nil => exact hcount
  | cons w writes ih =>
    have hrest := ih (h.set w) (h.uncounted_set hcount)
    rwa [Nat.add_assoc, ← foreign_cons] at hrest

/-- A key is left by all that is written through the other log, and by what is written to
other keys. -/
theorem Holds.leaves_set (h : shared.Holds file list) (hkey : w.opener = o → w.key ≠ k) :
    LogStore.Leaves k (shared.store o stamp) ((shared.set w).store o stamp) := by
  have hmade : (shared.logs o).file < shared.directory.files.length := h.files o ▸ h.made
  by_cases hown : w.opener = o
  · subst hown
    have hentry : w.entry.key ≠ k := hkey rfl
    have hchange := @LogStore.leaves_change checksum (shared.store w.opener stamp) w.entry k hmade
      hentry
    rw [store_set_self]
    exact ⟨⟨hchange.file, hchange.current, hchange.contents⟩, hchange.slot⟩
  · have hdirectory := h.directory_set w
    rw [← h.files o] at hdirectory
    exact LogStore.leaves_append hmade k (log_set_of_ne (Ne.symm hown)) hdirectory

/-- As long as a log does not bind a key itself, it looks for the value where it did. -/
theorem Holds.leaves_setAll (h : shared.Holds file list) (writes : List Write)
    (hkey : ∀ w ∈ writes, w.opener = o → w.key ≠ k) :
    LogStore.Leaves k (shared.store o stamp) ((shared.setAll writes).store o stamp) := by
  induction writes generalizing shared list with
  | nil => exact LogStore.Leaves.refl k _
  | cons w writes ih =>
    obtain ⟨hfirst, hkey⟩ := List.forall_mem_cons.mp hkey
    exact (h.leaves_set hfirst).trans (ih (h.set w) hkey)

/-- Through each log the file holds the bytes of all entries. -/
theorem Holds.fileContents_store (h : shared.Holds file list) (o : Opener) :
    (shared.store o stamp).fileContents = Recovery.layout checksum list := by
  rw [LogStore.fileContents, ← h.contents, ← h.files o]
  rfl

/-- The log of the directory holds the bytes of all entries. -/
theorem Holds.logContents_eq (h : shared.Holds file list) :
    shared.directory.logContents = Recovery.layout checksum list := by
  rw [Directory.logContents_eq h.current, h.contents]

/-- What a log reads for a value that it has bound while it did not count some bytes. -/
theorem Holds.get_setAll (h : shared.Holds file list)
    (hcount : (shared.store w.opener w.stamp).Uncounted n) (hroom : w.value.length < UInt32.size)
    (after : List Write) (hlast : ∀ later ∈ after, later.opener = w.opener → later.key ≠ w.key) :
    let last := (shared.set w).setAll after
    let contents := last.directory.logContents
    let place := (Recovery.layout checksum list).length + Entry.headerSize + w.key.length
    w.value <+: contents.drop place ∧
      last.get w.opener w.key =
        .ok (some ((contents.drop (place - n)).take w.value.length)) := by
  intro last contents place
  have hlastHolds : last.Holds file (list ++ [w.entry] ++ after.map Write.entry) :=
    (h.set w).setAll after
  have hcontents : (last.store w.opener 0).fileContents = contents :=
    (hlastHolds.fileContents_store w.opener).trans hlastHolds.logContents_eq.symm
  have hleaves : LogStore.Leaves w.key
      (ByteStore.set (shared.store w.opener w.stamp) w.key w.value) (last.store w.opener 0) := by
    have hrest := @Holds.leaves_setAll checksum _ w.opener 0 _ _ w.key (h.set w) after hlast
    rw [store_set_self] at hrest
    exact ⟨⟨hrest.file, hrest.current, hrest.contents⟩, hrest.slot⟩
  have hget := hcount.get_eq hroom hleaves
  rwa [h.fileContents_store, hcontents] at hget

/-- When the log is opened again, every entry is found that has room, whichever log has written
it. -/
theorem Holds.get_reopened (h : shared.Holds file list) (hfits : ∀ e ∈ list, e.Fits)
    (stamp : UInt32) (k : Key) :
    ByteStore.get (LogStore.ofDirectory checksum stamp shared.directory) k =
      .ok (Recovery.lastValue? list k) := by
  have hproper := Directory.proper_of_log h.current h.made
  rw [LogStore.get_ofDirectory hproper, h.logContents_eq, Recovery.entries_layout hfits]

end Shared

namespace LogStore

variable {checksum : Checksum} {s : LogStore checksum} {list : List Entry}

/-- What two logs open on one directory read and keep, after any writes through either of
them. The second log is opened without regard to the first. Every entry that is written is
in the file, and opening the log again finds them all if they have room. What was bound
before the second log was opened is read through each log, until that log binds the key
again. Of a value that was bound since, a log reads as many bytes as the value has, but in
front of the value, as far as the other log had written by then; and so it reads the value
itself if the other log had written nothing, whatever it writes later. -/
theorem Keeps.shared_reads (h : s.Keeps list) (writes : List Write) :
    let shared := (Shared.openSecond s).setAll writes
    let contents := shared.directory.logContents
    contents = Recovery.layout checksum (list ++ writes.map Write.entry) ∧
    ((∀ w ∈ writes, w.entry.Fits) → ∀ stamp k,
      ByteStore.get (ofDirectory checksum stamp shared.directory) k =
        .ok (Recovery.lastValue? (list ++ writes.map Write.entry) k)) ∧
    (∀ o k, (∀ w ∈ writes, w.opener = o → w.key ≠ k) →
      shared.get o k = .ok (Recovery.lastValue? list k)) ∧
    ∀ before w after, writes = before ++ w :: after → w.value.length < UInt32.size →
      (∀ later ∈ after, later.opener = w.opener → later.key ≠ w.key) →
      let place := (Recovery.layout checksum (list ++ before.map Write.entry)).length +
        Entry.headerSize + w.key.length
      w.value <+: contents.drop place ∧
      shared.get w.opener w.key = .ok (some ((contents.drop
        (place - Shared.foreign w.opener before)).take w.value.length)) ∧
      ((∀ earlier ∈ before, earlier.opener = w.opener) →
        shared.get w.opener w.key = .ok (some w.value)) := by
  intro shared contents
  have hstart := Shared.holds_openSecond h
  have hholds : shared.Holds s.log.file (list ++ writes.map Write.entry) := hstart.setAll writes
  refine ⟨hholds.logContents_eq, fun hfits stamp k => ?_, fun o k hkey => ?_, ?_⟩
  · refine hholds.get_reopened (fun e he => ?_) stamp k
    rcases List.mem_append.mp he with he | he
    · exact h.fits e he
    · obtain ⟨w, hw, rfl⟩ := List.mem_map.mp he
      exact hfits w hw
  · have hleaves := @Shared.Holds.leaves_setAll checksum _ o 0 _ _ k hstart writes hkey
    rw [Shared.store_openSecond h] at hleaves
    refine ((h.withStamp 0).get_of_leaves hleaves).trans ?_
    rw [(h.withStamp 0).get_eq, ← Memory.get?_afterChanges]
    rfl
  · intro before w after hwrites hroom hlast place
    have hcount : (((Shared.openSecond s).setAll before).store w.opener w.stamp).Uncounted
        (Shared.foreign w.opener before) := by
      have hopened : ((Shared.openSecond s).store w.opener w.stamp).Uncounted 0 :=
        Shared.store_openSecond h w.opener ▸ (h.withStamp w.stamp).uncounted
      have hcount := hstart.uncounted_setAll before hopened
      rwa [Nat.zero_add] at hcount
    have hafter : shared =
        (((Shared.openSecond s).setAll before).set w).setAll after := by
      simp only [shared, hwrites, Shared.setAll, List.foldl_append, List.foldl_cons]
    obtain ⟨hstands, hget⟩ := (hstart.setAll before).get_setAll hcount hroom after hlast
    rw [← hafter] at hstands hget
    refine ⟨hstands, hget, fun hown => ?_⟩
    rw [hget, Shared.foreign_eq_zero hown, Nat.sub_zero, ← List.prefix_iff_eq_take.mp hstands]

/-- Two values that are bound through the first log, and one that is bound through the second
one in between. -/
def sampleWrites : List Write :=
  [⟨.first, 0, [97], [49]⟩, ⟨.second, 0, [98], [50]⟩, ⟨.first, 0, [99], [51]⟩]

/-- The first log reads what it had bound before the second one wrote. -/
theorem shared_reads_sample :
    let start : LogStore Sha3.checksum := ofDirectory Sha3.checksum 0 Directory.empty
    ((Shared.openSecond start).setAll sampleWrites).get .first [97] = .ok (some [49]) := by
  intro start
  have hstart : start.Keeps [] := keeps_ofDirectory_empty 0
  obtain ⟨_, _, _, hreads⟩ := hstart.shared_reads sampleWrites
  have hfirst := hreads [] ⟨.first, 0, [97], [49]⟩
    [⟨.second, 0, [98], [50]⟩, ⟨.first, 0, [99], [51]⟩] rfl (by decide) (by decide)
  exact hfirst.2.2 (by simp)

/-- But what it binds after the second one wrote, it does not read, though the second one does
not write to that key: it reads the last byte of the entry of the second one. -/
theorem shared_not_read :
    let start : LogStore Sha3.checksum := ofDirectory Sha3.checksum 0 Directory.empty
    let shared := (Shared.openSecond start).setAll sampleWrites
    (∀ w ∈ sampleWrites, w.opener = .second → w.key ≠ [99]) ∧
      shared.get .first [99] = .ok (some [50]) ∧
      shared.get .first [99] ≠ .ok (some [51]) := by
  intro start shared
  have hget : shared.get .first [99] = .ok (some [50]) := by decide +kernel
  refine ⟨by decide, hget, ?_⟩
  rw [hget]
  decide

end LogStore

end RelationalStore
