import RelationalStore.Digest.Sha3
import RelationalStore.Proofs.Log.Kept

/-!
# Logs that are cut

A log may lose its end at any byte. When it is opened again, it keeps the entries that
still are there as a whole, and the bytes that are left of the next one are cut off. So
the store then is as it was after the changes that wrote these entries.
-/

namespace RelationalStore

namespace Directory

variable {d : Directory} {n : Nat}

/-- The directory with only so many bytes left of its log. -/
def cutLog (d : Directory) (n : Nat) : Directory :=
  match d.log with
  | some file => d.write file ((d.contents file).take n)
  | none => d

/-- Cutting the log leaves the beginning of what it held, in a file that has been made. -/
theorem Proper.cutLog (h : d.Proper) :
    (d.cutLog n).Proper ∧ (d.cutLog n).logContents = d.logContents.take n := by
  unfold Directory.cutLog
  cases hlog : d.log with
  | none =>
    rw [logContents, hlog, List.take_nil]
    exact ⟨h, rfl⟩
  | some file =>
    have hmade := h file hlog
    have hsame : (d.write file ((d.contents file).take n)).log = some file := hlog
    refine ⟨fun other hother => ?_, ?_⟩
    · obtain rfl : file = other := Option.some.inj (hsame.symm.trans hother)
      rwa [length_files_write]
    · rw [logContents_eq hsame, contents_write hmade, logContents_eq hlog]

end Directory

namespace LogStore

variable {checksum : Checksum} {s : LogStore checksum} {list changes : List Entry}

/-- The store after several changes. -/
def changeAll (s : LogStore checksum) (changes : List Entry) : LogStore checksum :=
  changes.foldl change s

/-- The entries that changes write: one for each of them, but none where a key is unbound
that is not bound. -/
def written : LogStore checksum → List Entry → List Entry
  | _, [] => []
  | s, e :: rest =>
    if e.value = none ∧ ByteStore.has s e.key = false then written (s.change e) rest
    else e :: written (s.change e) rest

/-- Changes that have room add what they write to the entries of the file. -/
theorem Keeps.changeAll (h : s.Keeps list) (hfits : ∀ e ∈ changes, e.Fits) :
    (s.changeAll changes).Keeps (list ++ s.written changes) := by
  induction changes generalizing s list with
  | nil =>
    rw [written, List.append_nil]
    exact h
  | cons e changes ih =>
    obtain ⟨hfirst, hfits⟩ := List.forall_mem_cons.mp hfits
    rw [written]
    split
    · next hidle => exact ih (h.change_idle hidle.1 hidle.2) hfits
    · next hidle =>
      have hwrites : e.value = none → ByteStore.has s e.key = true := fun hvalue => by
        by_contra hfree
        exact hidle ⟨hvalue, Bool.eq_false_iff.mpr hfree⟩
      have hrest := ih (h.change hfirst hwrites) hfits
      rwa [List.append_assoc, List.singleton_append] at hrest

/-- A log that changes have written in an empty directory holds the entries that they wrote.
If it is cut anywhere and opened again, it is cut to the end of the last entry that lies
wholly before the cut, and it answers what a store in memory answers after the changes that
wrote the entries up to there. -/
theorem ofDirectory_cutLog (checksum : Checksum) (stamp : UInt32) (changes : List Entry)
    (hfits : ∀ e ∈ changes, e.Fits) (n : Nat) :
    let start : LogStore checksum := ofDirectory checksum 0 Directory.empty
    let s := start.changeAll changes
    let entries := start.written changes
    s.directory.logContents = Recovery.layout checksum entries ∧
    (n ≤ s.directory.logContents.length → ∃ count ≤ entries.length,
      (Recovery.layout checksum (entries.take count)).length ≤ n ∧
      (∀ i ≤ entries.length,
        (Recovery.layout checksum (entries.take i)).length ≤ n → i ≤ count) ∧
      let cut : LogStore checksum := ofDirectory checksum stamp (s.directory.cutLog n)
      let m := Memory.afterChanges (entries.take count)
      cut.directory.logContents = Recovery.layout checksum (entries.take count) ∧
      (∀ k, ByteStore.get cut k = ByteStore.get m k) ∧
      (∀ k, ByteStore.has cut k = ByteStore.has m k) ∧
      (∀ interval, ByteStore.scan cut interval = ByteStore.scan m interval) ∧
      (ByteStore.usage cut).totalCount = (ByteStore.usage m).totalCount ∧
      (ByteStore.usage cut).logicalSize = (ByteStore.usage m).logicalSize) := by
  intro start s entries
  have hstart : start.Keeps [] := keeps_ofDirectory_empty 0
  have hkeeps : s.Keeps entries := hstart.changeAll hfits
  refine ⟨hkeeps.logContents_eq, fun hn => ?_⟩
  rw [hkeeps.logContents_eq] at hn
  obtain ⟨count, hcount, hspan, hmost, hread⟩ :=
    Recovery.exists_entries_take_layout hkeeps.fits hn
  refine ⟨count, hcount, hspan, hmost, ?_⟩
  intro cut m
  have hcut : cut.Keeps (entries.take count) := by
    obtain ⟨hproper, hcontents⟩ := hkeeps.proper.cutLog (n := n)
    have hopened : cut.Keeps (Recovery.entries checksum (s.directory.cutLog n).logContents) :=
      keeps_ofDirectory hproper stamp
    rwa [hcontents, hkeeps.logContents_eq, hread] at hopened
  exact ⟨hcut.logContents_eq, hcut.get_eq, hcut.has_eq, hcut.scan_eq, hcut.totalCount_eq,
    hcut.logicalSize_eq⟩

/-- Changes that bind two keys, unbind one that is not bound and unbind one that is. -/
def sampleChanges : List Entry :=
  [⟨0, [97], some [49]⟩, ⟨1, [98], some [50]⟩, ⟨2, [99], none⟩, ⟨3, [97], none⟩]

/-- The last entry of the sample is cut through, and so its key is bound again. -/
theorem ofDirectory_cutLog_sample :
    let start : LogStore Sha3.checksum := ofDirectory Sha3.checksum 0 Directory.empty
    let cut : LogStore Sha3.checksum := ofDirectory Sha3.checksum 4
      ((start.changeAll sampleChanges).directory.cutLog 64)
    cut.directory.logContents.length = 44 ∧ ByteStore.get cut [97] = .ok (some [49]) := by
  intro start cut
  have hfits : ∀ e ∈ sampleChanges, e.Fits := by
    intro e he
    simp only [sampleChanges, List.mem_cons, List.not_mem_nil, or_false] at he
    rcases he with rfl | rfl | rfl | rfl <;>
      exact ⟨by decide, fun v hv => by cases hv; try decide⟩
  have hwritten : start.written sampleChanges =
      [⟨0, [97], some [49]⟩, ⟨1, [98], some [50]⟩, ⟨3, [97], none⟩] := by decide +kernel
  obtain ⟨hcontents, hcut⟩ := ofDirectory_cutLog Sha3.checksum 4 sampleChanges hfits 64
  have hsize : (start.changeAll sampleChanges).directory.logContents.length = 65 := by
    rw [hcontents, hwritten]
    rfl
  have hn : 64 ≤ (start.changeAll sampleChanges).directory.logContents.length := by omega
  obtain ⟨count, hcount, hspan, hmost, hleft, hget, _⟩ := hcut hn
  rw [hwritten] at hcount hspan hmost hleft hget
  have htwo : 2 ≤ count := hmost 2 (by decide) (by decide +kernel)
  have hthree : count ≠ 3 := by
    rintro rfl
    exact absurd hspan (by decide +kernel)
  obtain rfl : count = 2 := by
    simp only [List.length_cons, List.length_nil] at hcount
    omega
  exact ⟨hleft ▸ rfl, hget [97]⟩

end LogStore

end RelationalStore
