import RelationalStore.Proofs.Log.Kept

/-!
# Opening any file

A log is opened whatever its file holds. The entries that are kept are all that stand at
the start of the file one behind the other, because no entry is the beginning of another
one. They bind each key to what the last of its entries says. The file is cut behind them,
and so there is nothing left to cut when it is opened once more.
-/

namespace RelationalStore

/-- What the last entry of a key binds it to; none if that entry unbinds it or there is no
entry of the key. -/
def Recovery.lastValue? (list : List Entry) (k : Key) : Option Bytes :=
  (list.reverse.find? fun e => e.key = k).bind (·.value)

/-- Making the changes one after another binds each key to what the last of them says. -/
theorem Memory.get?_afterChanges (list : List Entry) (k : Key) :
    (afterChanges list).index.bindings.get? k = Recovery.lastValue? list k := by
  induction list using List.reverseRecOn with
  | nil => rfl
  | append_singleton list e ih =>
    rw [afterChanges_concat, bindings_change, Recovery.lastValue?, List.reverse_append]
    rw [Recovery.lastValue?] at ih
    by_cases hkey : e.key = k
    · have hfound : ([e].reverse ++ list.reverse).find? (fun e => e.key = k) = some e := by
        simp [hkey]
      rw [hfound, Option.bind_some]
      cases e.value with
      | none => simp [SortedMap.get?_erase, hkey]
      | some v => simp [SortedMap.get?_insert, hkey]
    · have hbefore : ([e].reverse ++ list.reverse).find? (fun e => e.key = k) =
          list.reverse.find? (fun e => e.key = k) := by
        simp [hkey]
      rw [hbefore, ← ih]
      cases e.value with
      | none => simp [SortedMap.get?_erase, Ne.symm hkey]
      | some v => simp [SortedMap.get?_insert, Ne.symm hkey]

namespace Recovery

variable {checksum : Checksum} {input : Bytes} {list other : List Entry}

/-- The entries stand at the start of a byte string, and all entries that stand there are
among them. An entry here has lengths that fit their fields and a right checksum. -/
structure Longest (checksum : Checksum) (input : Bytes) (list : List Entry) : Prop where
  fits : ∀ e ∈ list, e.Fits
  starts : layout checksum list <+: input
  longest : ∀ other, (∀ e ∈ other, e.Fits) → layout checksum other <+: input →
    other <+: list ∧ (layout checksum other).length ≤ (layout checksum list).length

/-- Entries that stand at the start of a byte string are read off it first. -/
theorem prefix_entries_of_layout_prefix (hfits : ∀ e ∈ other, e.Fits)
    (hstarts : layout checksum other <+: input) : other <+: entries checksum input := by
  induction other generalizing input with
  | nil => exact List.nil_prefix
  | cons e other ih =>
    obtain ⟨hfirst, hfits⟩ := List.forall_mem_cons.mp hfits
    obtain ⟨rest, rfl⟩ := hstarts
    have hread : Entry.read? checksum (layout checksum (e :: other) ++ rest) =
        some (e, layout checksum other ++ rest) :=
      Entry.read?_eq_some_iff.mpr ⟨hfirst, by rw [layout_cons, List.append_assoc]⟩
    rw [entries_of_read?_eq_some hread]
    exact List.prefix_cons_inj e |>.mpr (ih hfits (List.prefix_append _ rest))

/-- The entries that are read off a byte string are as many as stand there. -/
theorem longest_entries (checksum : Checksum) (input : Bytes) :
    Longest checksum input (entries checksum input) := by
  obtain ⟨hstarts, hfits⟩ := layout_entries_prefix checksum input
  refine ⟨hfits, hstarts, fun other hother hbefore => ?_⟩
  have hfirst := prefix_entries_of_layout_prefix hother hbefore
  refine ⟨hfirst, ?_⟩
  obtain ⟨more, hmore⟩ := hfirst
  rw [← hmore, layout, layout, List.flatMap_append, List.length_append]
  exact Nat.le_add_right _ _

end Recovery

namespace Directory

variable {d : Directory} {bytes bytes' : Bytes}

/-- Writing to the new file of a log is replacing the log by other bytes. -/
theorem write_replaceLog :
    (d.replaceLog bytes).write d.files.length bytes' = d.replaceLog bytes' := by
  simp [write, replaceLog]

/-- A log that has been replaced is a file that has been made. -/
theorem proper_replaceLog : (d.replaceLog bytes).Proper :=
  proper_of_log rfl (length_files_replaceLog ▸ Nat.lt_succ_self _)

/-- A log that has been replaced holds the new bytes. -/
theorem logContents_replaceLog : (d.replaceLog bytes).logContents = bytes := by
  rw [logContents_eq rfl, contents_replaceLog]

end Directory

namespace LogStore

variable {checksum : Checksum}

/-- When a log is opened, each key is bound to what the last entry of the file says. -/
theorem get_ofDirectory {d : Directory} (hproper : d.Proper) (stamp : UInt32) (k : Key) :
    ByteStore.get (ofDirectory checksum stamp d) k =
      .ok (Recovery.lastValue? (Recovery.entries checksum d.logContents) k) := by
  have hkeeps : (ofDirectory checksum stamp d).Keeps (Recovery.entries checksum d.logContents) :=
    keeps_ofDirectory hproper stamp
  rw [hkeeps.get_eq, ← Memory.get?_afterChanges]
  rfl

/-- Whatever the file of a log holds, the log is opened. The entries that it keeps are the
longest sequence that stands at the start of the file, which is cut behind them. Each key
is bound to what its last entry says. Opening the log again leaves the file and all that
is bound as they are. -/
theorem ofDirectory_replaceLog (checksum : Checksum) (stamp : UInt32) (d : Directory)
    (input : Bytes) :
    let s : LogStore checksum := ofDirectory checksum stamp (d.replaceLog input)
    ∃ list, Recovery.Longest checksum input list ∧
      s.directory = d.replaceLog (Recovery.layout checksum list) ∧
      (∀ k, ByteStore.get s k = .ok (Recovery.lastValue? list k)) ∧
      (∀ k, ByteStore.has s k = (Recovery.lastValue? list k).isSome) ∧
      (∀ interval, ByteStore.scan s interval =
        ByteStore.scan (Memory.afterChanges list) interval) ∧
      ∀ stamp', ofDirectory checksum stamp' s.directory = { s with stamp := stamp' } := by
  intro s
  have hproper : (d.replaceLog input).Proper := Directory.proper_replaceLog
  have hkeeps : s.Keeps (Recovery.entries checksum (d.replaceLog input).logContents) :=
    keeps_ofDirectory hproper stamp
  have hget := @get_ofDirectory checksum _ hproper stamp
  rw [Directory.logContents_replaceLog] at hkeeps hget
  obtain ⟨contents, hdirectory⟩ : ∃ contents, s.directory = d.replaceLog contents :=
    ⟨_, Directory.write_replaceLog⟩
  have hcontents := hkeeps.logContents_eq
  rw [hdirectory, Directory.logContents_replaceLog] at hcontents
  refine ⟨_, Recovery.longest_entries checksum input, hcontents ▸ hdirectory, hget,
    fun k => ?_, hkeeps.scan_eq, hkeeps.ofDirectory_eq⟩
  rw [hkeeps.has_eq, ← Memory.get?_afterChanges]
  rfl

end LogStore

end RelationalStore
