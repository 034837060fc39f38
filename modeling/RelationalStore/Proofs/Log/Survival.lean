import RelationalStore.Proofs.Log.Cut
import RelationalStore.Proofs.Log.Opening

/-!
# Writes that survive

A value that is bound is written to the end of the log, whatever its size. It is found
there again after the log has been closed exactly if its length and that of its key have
room in their fields. If they have, all that is written later is found as well. A value
that has no room makes a header that announces no proper length, and then it is lost with
all that is written behind it. Besides, an open log does not learn that another one has
put a new file in its place, and whatever it writes from then on is lost.
-/

namespace RelationalStore

namespace Directory

variable {d : Directory} {file other : Nat} {more more' : Bytes}

/-- Appending nothing to a file changes nothing. -/
theorem append_nil (h : file < d.files.length) : d.append file [] = d := by
  rw [append, List.append_nil, write_contents h]

/-- What is appended in two steps may be appended in one. -/
theorem append_append (h : file < d.files.length) :
    (d.append file more).append file more' = d.append file (more ++ more') := by
  simp only [append, contents_write h, List.append_assoc]
  simp [write]

/-- Appending to a file takes none away. -/
theorem Proper.append (h : d.Proper) : (d.append file more).Proper := by
  intro other hother
  rw [Directory.append, length_files_write]
  exact h other hother

/-- What is added to the log stands behind what was there. -/
theorem logContents_append (hlog : d.log = some file) (h : file < d.files.length) :
    (d.append file more).logContents = d.logContents ++ more := by
  have hsame : (d.append file more).log = some file := hlog
  rw [logContents_eq hsame, logContents_eq hlog, append, contents_write h]

/-- What is added to another file is not in the log. -/
theorem logContents_append_of_ne (hlog : d.log = some other) (hne : file ≠ other) :
    (d.append file more).logContents = d.logContents := by
  have hsame : (d.append file more).log = some other := hlog
  rw [logContents_eq hsame, logContents_eq hlog]
  simp [append, write, contents, hne]

end Directory

/-- Compaction puts a new file in the place of the log. -/
theorem Log.compact_replaces {checksum : Checksum} {log : Log} {stamp : UInt32} {d : Directory}
    {next : Directory × Log} (h : log.compact checksum stamp d = .ok next) :
    ∃ contents, next.1 = d.replaceLog contents := by
  simp only [Log.compact, bind_eq_ok_iff, pure_eq_ok_iff] at h
  obtain ⟨live, _, rfl⟩ := h
  exact ⟨_, rfl⟩

namespace LogStore

variable {checksum : Checksum} {s : LogStore checksum} {list : List Entry}

/-- A change adds bytes to the file of the open log, which counts them, if it writes any. -/
theorem exists_change_append (hmade : s.log.file < s.directory.files.length) (e : Entry) :
    ∃ more, (s.change e).directory = s.directory.append s.log.file more ∧
      (s.change e).log.file = s.log.file ∧
      (s.change e).log.length = s.log.length + more.length := by
  cases hvalue : e.value with
  | some v =>
    obtain ⟨stamp, k, value⟩ := e
    obtain rfl : value = some v := hvalue
    exact ⟨_, rfl, rfl, rfl⟩
  | none =>
    cases hbound : ByteStore.has s e.key with
    | true =>
      rw [change_of_bound hvalue hbound]
      exact ⟨_, rfl, rfl, rfl⟩
    | false =>
      rw [change_of_free hvalue hbound]
      exact ⟨[], (Directory.append_nil hmade).symm, rfl, rfl⟩

/-- Changes only ever add bytes to the file of the open log. -/
theorem exists_changeAll_append (hmade : s.log.file < s.directory.files.length)
    (changes : List Entry) :
    ∃ more, (s.changeAll changes).directory = s.directory.append s.log.file more := by
  induction changes generalizing s with
  | nil => exact ⟨[], (Directory.append_nil hmade).symm⟩
  | cons e changes ih =>
    obtain ⟨first, hdirectory, hfile, _⟩ := exists_change_append hmade e
    have hmade' : (s.change e).log.file < (s.change e).directory.files.length := by
      rw [hdirectory, hfile, Directory.append, Directory.length_files_write]
      exact hmade
    obtain ⟨more, hmore⟩ := ih hmade'
    refine ⟨first ++ more, ?_⟩
    rw [← Directory.append_append hmade, ← hdirectory, ← hfile]
    exact hmore

/-- A log that is opened binds no more than what its entries have room for. -/
theorem lengths_of_get_ofDirectory {d : Directory} (hproper : d.Proper) {stamp : UInt32} {k : Key}
    {v : Bytes} (hget : ByteStore.get (ofDirectory checksum stamp d) k = .ok (some v)) :
    k.length < UInt32.size ∧ v.length < Entry.valueLimit := by
  rw [get_ofDirectory hproper] at hget
  obtain ⟨_, hroom⟩ := Recovery.layout_entries_prefix checksum d.logContents
  obtain ⟨e, hfind, hvalue⟩ := Option.bind_eq_some_iff.mp (Except.ok.inj hget)
  have hmem := List.mem_reverse.mp (List.mem_of_find?_eq_some hfind)
  have hkey : e.key = k := by simpa using List.find?_some hfind
  exact ⟨hkey ▸ (hroom e hmem).key, (hroom e hmem).value v hvalue⟩

/-- An entry that stands in a file is read as an entry of its key with its value exactly if
it has room. -/
theorem read_back_iff {e : Entry} {more : Bytes} :
    (∃ found rest, Entry.read? checksum (e.bytes checksum ++ more) = some (found, rest) ∧
      found.key = e.key ∧ found.value = e.value) ↔ e.Fits := by
  constructor
  · rintro ⟨found, rest, hread, hkey, hvalue⟩
    obtain ⟨hfits, _⟩ := Entry.read?_eq_some_iff.mp hread
    exact ⟨hkey ▸ hfits.key, hvalue ▸ hfits.value⟩
  · intro hfits
    exact ⟨e, more, Entry.read?_eq_some_iff.mpr ⟨hfits, rfl⟩, rfl, rfl⟩

/-- What is kept is found when the log is opened again, and then what is read off the bytes
behind it. -/
theorem Keeps.ofDirectory_append (h : s.Keeps list) {d : Directory} (hproper : d.Proper)
    {bytes : Bytes} (hcontents : d.logContents = Recovery.layout checksum list ++ bytes)
    (stamp : UInt32) :
    (ofDirectory checksum stamp d).Keeps (list ++ Recovery.entries checksum bytes) := by
  have hkeeps : (ofDirectory checksum stamp d).Keeps (Recovery.entries checksum d.logContents) :=
    keeps_ofDirectory hproper stamp
  rwa [hcontents, Recovery.entries_layout_append h.fits] at hkeeps

/-- What is written behind an entry without a proper header is not read. -/
theorem Keeps.ofDirectory_of_unread (h : s.Keeps list) {d : Directory} (hproper : d.Proper)
    {bytes : Bytes} (hcontents : d.logContents = Recovery.layout checksum list ++ bytes)
    (hunread : Entry.read? checksum bytes = none) (stamp : UInt32) :
    (ofDirectory checksum stamp d).Keeps list := by
  have hkeeps := h.ofDirectory_append hproper hcontents stamp
  rwa [Recovery.entries_of_read?_eq_none hunread, List.append_nil] at hkeeps

/-- An entry that binds a key has room exactly if both lengths have. -/
theorem fits_binding_iff {time : UInt32} {k : Key} {v : Bytes} :
    (⟨time, k, some v⟩ : Entry).Fits ↔ k.length < UInt32.size ∧ v.length < Entry.valueLimit := by
  constructor
  · intro hfits
    exact ⟨hfits.key, hfits.value v rfl⟩
  · rintro ⟨hkey, hvalue⟩
    refine ⟨hkey, fun w hw => ?_⟩
    obtain rfl := Option.some.inj hw
    exact hvalue

/-- Where the length of the value is negative as a number of 32 bits, but not that of an
entry that unbinds, the value and all that is written later is lost. -/
theorem Keeps.lost_after_set (h : s.Keeps list) (k : Key) {v : Bytes}
    (hlow : Entry.valueLimit ≤ v.length) (hhigh : v.length < UInt32.size - 1)
    (changes : List Entry) (stamp : UInt32) :
    (ofDirectory checksum stamp
      ((ByteStore.set s k v).changeAll changes).directory : LogStore checksum).Keeps list := by
  have hlow' : ¬ v.length < 0x80000000 := Nat.not_lt.mpr hlow
  have hhigh' : v.length ≠ UInt32.size - 1 := Nat.ne_of_lt hhigh
  have hnone : Entry.announced? (Entry.valueField (some v)) = none := by
    simp only [Entry.announced?, Entry.valueField, hlow', hhigh', if_false]
  have hfield : Entry.valueField (some v) < UInt32.size :=
    Nat.lt_of_lt_of_le hhigh (Nat.sub_le _ _)
  have hunread (more : Bytes) := @Entry.read?_eq_none_of_valueField checksum
    ⟨s.stamp, k, some v⟩ more hfield hnone
  have hmade : (ByteStore.set s k v).log.file < (ByteStore.set s k v).directory.files.length :=
    Nat.lt_of_lt_of_eq h.made Directory.length_files_write.symm
  obtain ⟨more, hmore⟩ := exists_changeAll_append hmade changes
  have hdirectory : ((ByteStore.set s k v).changeAll changes).directory =
      s.directory.append s.log.file
        ((⟨s.stamp, k, some v⟩ : Entry).bytes checksum ++ more) := by
    rw [hmore, ← Directory.append_append h.made]
    rfl
  rw [hdirectory]
  refine h.ofDirectory_of_unread h.proper.append ?_ (hunread more) stamp
  rw [Directory.logContents_append h.current h.made, h.logContents_eq]

/-- When another open log has been compacted, nothing that is written through this one is
there when the log is opened again. -/
theorem get_after_replacement (hmade : s.log.file < s.directory.files.length) {other : Log}
    {time : UInt32} {next : Directory × Log}
    (hcompact : other.compact checksum time s.directory = .ok next) (changes : List Entry)
    (stamp : UInt32) (k : Key) :
    ByteStore.get (ofDirectory checksum stamp
        (({ s with directory := next.1 } : LogStore checksum).changeAll changes).directory) k =
      ByteStore.get (ofDirectory checksum stamp next.1) k := by
  obtain ⟨contents, hnext⟩ := Log.compact_replaces hcompact
  have hproper : next.1.Proper := hnext ▸ Directory.proper_replaceLog
  have hlog : next.1.log = some s.directory.files.length := hnext ▸ rfl
  have hmade' : s.log.file < next.1.files.length := by
    rw [hnext, Directory.length_files_replaceLog]
    omega
  obtain ⟨more, hmore⟩ := @exists_changeAll_append checksum { s with directory := next.1 } hmade'
    changes
  have hsame := @Directory.logContents_append_of_ne next.1 s.log.file _ more hlog
    (Nat.ne_of_lt hmade)
  rw [hmore, get_ofDirectory hproper.append, hsame, get_ofDirectory hproper]

/-- What becomes of a value that is bound in a log that keeps whole entries. Its bytes are
added to the file whatever its size. They are read back as an entry of the key with the
value, and the value is found when the log is opened again, exactly if both lengths have
room. Then nothing that is written later is lost either. But if the length of the value is
one that no field of an entry announces, it is lost with all that is written later, and so
is everything that is written after another open log has been compacted. -/
theorem Keeps.set_survives_iff (h : s.Keeps list) (k : Key) (v : Bytes) (stamp : UInt32) :
    let e : Entry := ⟨s.stamp, k, some v⟩
    let room := k.length < UInt32.size ∧ v.length < Entry.valueLimit
    let bound := ByteStore.set s k v
    let reopened := fun changes : List Entry =>
      (ofDirectory checksum stamp (bound.changeAll changes).directory : LogStore checksum)
    bound.directory.logContents = s.directory.logContents ++ e.bytes checksum ∧
    (∀ more, (∃ found rest, Entry.read? checksum (e.bytes checksum ++ more) = some (found, rest) ∧
      found.key = k ∧ found.value = some v) ↔ room) ∧
    (ByteStore.get (reopened []) k = .ok (some v) ↔ room) ∧
    (room → ∀ changes, (∀ e ∈ changes, e.Fits) →
      reopened changes = { bound.changeAll changes with stamp := stamp }) ∧
    (Entry.valueLimit ≤ v.length → v.length < UInt32.size - 1 →
      ∀ changes k', ByteStore.get (reopened changes) k' = ByteStore.get s k') ∧
    (∀ (other : Log) (time : UInt32) (next : Directory × Log),
      other.compact checksum time s.directory = .ok next → ∀ changes k',
        let stale : LogStore checksum := { s with directory := next.1 }
        ByteStore.get (ofDirectory checksum stamp
            ((ByteStore.set stale k v).changeAll changes).directory) k' =
          ByteStore.get (ofDirectory checksum stamp next.1) k') := by
  intro e room bound reopened
  have hfits : e.Fits ↔ room := fits_binding_iff
  have hbytes : bound.directory = s.directory.append s.log.file (e.bytes checksum) := rfl
  have hproper : bound.directory.Proper := hbytes ▸ h.proper.append
  have hkept (hroom : room) : bound.Keeps (list ++ [e]) :=
    h.change (hfits.mpr hroom) fun hnone => by cases hnone
  refine ⟨?_, ?_, ⟨?_, fun hroom => ?_⟩, ?_, ?_, ?_⟩
  · rw [hbytes, Directory.logContents_append h.current h.made]
  · intro more
    exact read_back_iff.trans hfits
  · exact lengths_of_get_ofDirectory hproper
  · have hopen : reopened [] = { bound with stamp := stamp } := (hkept hroom).ofDirectory_eq stamp
    rw [hopen, ((hkept hroom).withStamp stamp).get_eq, Memory.afterChanges_concat]
    exact congrArg Except.ok (SortedMap.get?_insert.trans (if_pos rfl))
  · intro hroom changes hchanges
    exact ((hkept hroom).changeAll hchanges).ofDirectory_eq stamp
  · intro hlow hhigh changes k'
    rw [(h.lost_after_set k hlow hhigh changes stamp).get_eq, h.get_eq]
  · intro other time next hcompact changes k' stale
    exact get_after_replacement h.made hcompact (⟨s.stamp, k, some v⟩ :: changes) stamp k'

/-- A value of one byte is found in a log that is opened again. -/
theorem set_survives_sample :
    let start : LogStore Sha3.checksum := ofDirectory Sha3.checksum 0 Directory.empty
    ByteStore.get (ofDirectory Sha3.checksum 1 (ByteStore.set start [97] [49]).directory :
      LogStore Sha3.checksum) [97] = .ok (some [49]) := by
  intro start
  have hstart : start.Keeps [] := keeps_ofDirectory_empty 0
  obtain ⟨_, _, hreopened, _⟩ := hstart.set_survives_iff [97] [49] 1
  exact hreopened.mpr (by decide)

/-- Two values of one key, written one after the other to a new log. -/
def sampleTwice : LogStore Sha3.checksum :=
  ByteStore.set (ByteStore.set (ofDirectory Sha3.checksum 0 Directory.empty) [97] [49]) [97] [50]

/-- A value of `2 ^ 31` bytes is not found when the log is opened again. Neither is a value
of one byte that is written after the log has been opened a second time and compacted there. -/
theorem set_not_surviving :
    (let start : LogStore Sha3.checksum := ofDirectory Sha3.checksum 0 Directory.empty
      let bound := ByteStore.set start [97] (List.replicate 0x80000000 0)
      ByteStore.get (ofDirectory Sha3.checksum 1 bound.directory : LogStore Sha3.checksum) [97] =
        .ok none) ∧
    let second : LogStore Sha3.checksum := ofDirectory Sha3.checksum 1 sampleTwice.directory
    ∃ next, second.log.compact Sha3.checksum 1 second.directory = .ok next ∧
      let stale : LogStore Sha3.checksum := { sampleTwice with directory := next.1 }
      ByteStore.get (ofDirectory Sha3.checksum 2 (ByteStore.set stale [98] [51]).directory :
        LogStore Sha3.checksum) [98] = .ok none := by
  have hstart : (ofDirectory Sha3.checksum 0 Directory.empty : LogStore Sha3.checksum).Keeps [] :=
    keeps_ofDirectory_empty 0
  constructor
  · intro start bound
    have hlow : Entry.valueLimit ≤ (List.replicate 0x80000000 (0 : UInt8)).length := by
      rw [List.length_replicate]
      decide
    have hhigh : (List.replicate 0x80000000 (0 : UInt8)).length < UInt32.size - 1 := by
      rw [List.length_replicate]
      decide
    have hlost := hstart.lost_after_set [97] hlow hhigh [] 1
    exact (hlost.get_eq [97]).trans rfl
  · intro second
    have hfirst : (ByteStore.set (ofDirectory Sha3.checksum 0 Directory.empty :
        LogStore Sha3.checksum) [97] [49]).Keeps [⟨0, [97], some [49]⟩] :=
      hstart.change (fits_binding_iff.mpr (by decide)) fun hnone => by cases hnone
    have htwice : sampleTwice.Keeps [⟨0, [97], some [49]⟩, ⟨0, [97], some [50]⟩] :=
      hfirst.change (fits_binding_iff.mpr (by decide)) fun hnone => by cases hnone
    have hsecond : second = { sampleTwice with stamp := 1 } := htwice.ofDirectory_eq 1
    obtain ⟨next, hcompact, hneeded⟩ := htwice.compact 1
    refine ⟨next, by rw [hsecond]; exact hcompact, ?_⟩
    intro stale
    have hget := get_after_replacement htwice.made hcompact [⟨0, [98], some [51]⟩] 2 [98]
    have hopen := hneeded.ofDirectory_eq 2
    refine hget.trans ?_
    rw [hopen, (hneeded.withStamp 2).get_eq]
    rfl

end LogStore

end RelationalStore
