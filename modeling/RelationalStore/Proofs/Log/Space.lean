import Mathlib.Data.List.Nodup
import Mathlib.Data.List.Perm.Basic
import RelationalStore.Proofs.Log.Opening
import RelationalStore.Proofs.Log.Runs

/-!
# The space that a log takes

The counters of an open log come from its index and its length, and not from the entries of
the file. They are exact all the same. Each key that is bound has one entry that is needed
for it, the last of that key, and the slot in the index is the place of that entry. All
other entries unbind a key or have another entry of their key behind them. Compaction
leaves the needed ones, in the order of their keys.
-/

namespace RelationalStore

namespace Recovery

variable {checksum : Checksum} {e : Entry} {list behind : List Entry} {k : Key} {v : Bytes}

/-- Whether an entry is not needed any more with these entries behind it: it unbinds its
key, or one of them is of the same key. -/
def spent (e : Entry) (behind : List Entry) : Bool :=
  e.value.isNone || behind.any fun e' => e'.key = e.key

/-- The entries that are not needed any more. -/
def garbage : List Entry → List Entry
  | [] => []
  | e :: behind => if spent e behind then e :: garbage behind else garbage behind

/-- The entries that still are needed. -/
def live : List Entry → List Entry
  | [] => []
  | e :: behind => if spent e behind then live behind else e :: live behind

/-- The key of an entry and the value that it is bound to. -/
def binding (e : Entry) : Key × Bytes :=
  (e.key, e.value.getD [])

/-- The entries that still are needed and those that are not fill the file between them. -/
theorem length_layout_live_add (checksum : Checksum) (list : List Entry) :
    (layout checksum (live list)).length + (layout checksum (garbage list)).length =
      (layout checksum list).length := by
  induction list with
  | nil => rfl
  | cons e behind ih =>
    rw [live, garbage]
    split <;> simp only [layout_cons, List.length_append] <;> omega

/-- An entry that still is needed is one of the entries. -/
theorem mem_of_mem_live (h : e ∈ live list) : e ∈ list := by
  induction list with
  | nil => exact h
  | cons first behind ih =>
    rw [live] at h
    split at h
    · exact List.mem_cons_of_mem first (ih h)
    · rcases List.mem_cons.mp h with rfl | h
      · exact List.mem_cons_self
      · exact List.mem_cons_of_mem first (ih h)

/-- No two of the needed entries are of one key. -/
theorem pairwise_live (list : List Entry) : (live list).Pairwise fun e e' => e.key ≠ e'.key := by
  induction list with
  | nil => exact .nil
  | cons e behind ih =>
    rw [live]
    split
    · exact ih
    · next hneeded =>
      refine .cons (fun e' he' hkey => hneeded ?_) ih
      have hlater : (behind.any fun e' => e'.key = e.key) = true :=
        List.any_eq_true.mpr ⟨e', mem_of_mem_live he', by simp [hkey]⟩
      rw [spent, hlater, Bool.or_true]

/-- A key of which there is no entry is bound to nothing. -/
theorem lastValue?_of_absent (h : (list.any fun e => e.key = k) = false) :
    lastValue? list k = none := by
  have hnone : list.reverse.find? (fun e => e.key = k) = none := by simpa using h
  rw [lastValue?, hnone, Option.bind_none]

/-- The entry at the front counts for its key if no other is of that key. -/
theorem lastValue?_cons : lastValue? (e :: behind) k =
    if e.key = k ∧ (behind.any fun e' => e'.key = k) = false then e.value
    else lastValue? behind k := by
  rw [lastValue?, lastValue?, List.reverse_cons, List.find?_append]
  cases hfound : behind.reverse.find? fun e' => e'.key = k with
  | some found =>
    have hmem : found ∈ behind := List.mem_reverse.mp (List.mem_of_find?_eq_some hfound)
    have hkey : found.key = k := by simpa using List.find?_some hfound
    have hlater : (behind.any fun e' => e'.key = k) = true :=
      List.any_eq_true.mpr ⟨found, hmem, by simp [hkey]⟩
    simp [hlater]
  | none =>
    have hnone : (behind.any fun e' => e'.key = k) = false := by simpa using hfound
    by_cases hkey : e.key = k <;> simp [hkey, hnone]

/-- The needed entries bind each key to what the last of its entries says. -/
theorem mem_binding_live_iff :
    (k, v) ∈ (live list).map binding ↔ lastValue? list k = some v := by
  induction list with
  | nil => simp [live, lastValue?]
  | cons e behind ih =>
    rw [lastValue?_cons, live]
    by_cases hkey : e.key = k
    · subst hkey
      cases hlater : behind.any fun e' => e'.key = e.key with
      | true =>
        -- the first entry is spent, and neither side depends on what it says
        simpa [spent, hlater] using ih
      | false =>
        rw [lastValue?_of_absent hlater] at ih
        cases hvalue : e.value with
        | none => simpa [spent, hvalue] using ih
        | some w =>
          have hneeded : spent e behind = false := by rw [spent, hvalue, hlater]; rfl
          have hfirst : binding e = (e.key, w) := by rw [binding, hvalue, Option.getD_some]
          rw [hneeded, if_neg Bool.false_ne_true, if_pos ⟨rfl, rfl⟩, List.map_cons,
            List.mem_cons, ih, hfirst]
          simp [eq_comm]
    · have hother : (k, v) ≠ binding e := fun h => hkey (congrArg Prod.fst h).symm
      have hlast : (if e.key = k ∧ (behind.any fun e' => e'.key = k) = false then e.value
          else lastValue? behind k) = lastValue? behind k := if_neg fun h => hkey h.1
      rw [hlast, ← ih]
      split
      · rfl
      · rw [List.map_cons, List.mem_cons, or_iff_right hother]

/-- The needed entries bind what is bound after the changes that all entries record. -/
theorem binding_live_perm (list : List Entry) :
    ((live list).map binding).Perm (Memory.afterChanges list).index.bindings.entries := by
  have hlive : ((live list).map binding).Nodup :=
    List.pairwise_map.mpr ((pairwise_live list).imp fun hne heq => hne (congrArg Prod.fst heq))
  have hbound : (Memory.afterChanges list).index.bindings.entries.Nodup :=
    List.Nodup.of_map Prod.fst SortedMap.nodup_keys
  -- neither binds a key twice, so the two need only bind each key to the same
  refine (List.perm_ext_iff_of_nodup hlive hbound).mpr fun (k, v) => ?_
  rw [mem_binding_live_iff, ← Memory.get?_afterChanges, SortedMap.mem_entries_iff]

/-- An entry takes a header besides its key and its value. -/
theorem length_layout_eq (checksum : Checksum) (list : List Entry) :
    (layout checksum list).length =
      (list.map binding).foldr (fun x n => x.1.length + x.2.length + n) 0 +
        Entry.headerSize * list.length := by
  induction list with
  | nil => rfl
  | cons e list ih =>
    rw [layout_cons, List.length_append, e.length_bytes, ih, List.map_cons, List.foldr_cons,
      List.length_cons, Nat.mul_succ]
    simp only [Entry.size, binding]
    omega

/-- Entries of different keys that all bind them are all needed. -/
theorem garbage_eq_nil (hbind : ∀ e ∈ list, e.value.isSome = true)
    (hkeys : list.Pairwise fun e e' => e.key ≠ e'.key) : garbage list = [] := by
  induction list with
  | nil => rfl
  | cons e behind ih =>
    obtain ⟨hfirst, hbind⟩ := List.forall_mem_cons.mp hbind
    obtain ⟨hother, hkeys⟩ := List.pairwise_cons.mp hkeys
    have hneeded : spent e behind = false := by
      rw [spent, Option.isNone_eq_false_iff.mpr hfirst, Bool.false_or]
      exact List.any_eq_false.mpr fun e' he' => by simpa using (hother e' he').symm
    rw [garbage, hneeded, ih hbind hkeys, if_neg Bool.false_ne_true]

end Recovery

/-- At the slot there starts an entry that is needed for the key, with a value of the length
that the slot says. -/
def Slot.PointsTo (checksum : Checksum) (list : List Entry) (k : Key) (slot : Slot) : Prop :=
  ∃ before stamp v after, list = before ++ ⟨stamp, k, some v⟩ :: after ∧
    Recovery.spent ⟨stamp, k, some v⟩ after = false ∧
    slot.start = (Recovery.layout checksum before).length ∧ slot.size.toNat = v.length

/-- The slot is what the index holds for the last entry of the key, which is needed. -/
def Slot.MadeBy (checksum : Checksum) (list : List Entry) (k : Key) (slot : Slot) : Prop :=
  ∃ before stamp v after, list = before ++ ⟨stamp, k, some v⟩ :: after ∧
    Recovery.spent ⟨stamp, k, some v⟩ after = false ∧
    slot = ⟨(Recovery.layout checksum before).length, UInt32.ofNat v.length⟩

section Slots

variable {checksum : Checksum} {list : List Entry} {e : Entry} {k : Key} {slot : Slot}

/-- An entry of another key changes nothing. -/
theorem Slot.MadeBy.concat (h : slot.MadeBy checksum list k) (hother : e.key ≠ k) :
    slot.MadeBy checksum (list ++ [e]) k := by
  obtain ⟨before, stamp, v, after, rfl, hneeded, hslot⟩ := h
  refine ⟨before, stamp, v, after ++ [e], by simp, ?_, hslot⟩
  simpa [Recovery.spent, hother] using hneeded

/-- Each slot that entries leave in the index is that of one that is needed, be there room for
its lengths or not. -/
theorem Recovery.madeBy_of_get?_replay (checksum : Checksum)
    (h : (replay list).1.bindings.get? k = some slot) : slot.MadeBy checksum list k := by
  induction list using List.reverseRecOn with
  | nil => cases h
  | append_singleton list e ih =>
    rw [replay_concat, applyEntry] at h
    cases hvalue : e.value with
    | none =>
      simp only [hvalue, KeyIndex.erase, SortedMap.get?_erase] at h
      split at h
      · cases h
      · next hother => exact (ih h).concat (Ne.symm hother)
    | some v =>
      simp only [hvalue, KeyIndex.insert, SortedMap.get?_insert] at h
      split at h
      · next hkey =>
        obtain ⟨stamp, key, value⟩ := e
        obtain rfl : k = key := hkey
        obtain rfl : value = some v := hvalue
        obtain rfl := Option.some.inj h
        -- what was bound before is of no interest, as the slot is that of the new entry
        exact ⟨list, stamp, v, [], rfl, rfl, by rw [replay_snd checksum]⟩
      · next hother => exact (ih h).concat (Ne.symm hother)

/-- If the lengths of the entries have room, the slot has that of the value. -/
theorem Slot.MadeBy.pointsTo (h : slot.MadeBy checksum list k) (hfits : ∀ e ∈ list, e.Fits) :
    slot.PointsTo checksum list k := by
  obtain ⟨before, stamp, v, after, rfl, hneeded, rfl⟩ := h
  have he : (⟨stamp, k, some v⟩ : Entry).Fits :=
    hfits _ (List.mem_append_right _ List.mem_cons_self)
  have hlength : v.length < UInt32.size := Nat.lt_trans (he.value v rfl) (by decide)
  exact ⟨before, stamp, v, after, rfl, hneeded, rfl, UInt32.toNat_ofNat_of_lt' hlength⟩

end Slots

namespace LogStore

variable {checksum : Checksum} {s next : LogStore checksum} {action : LogAction}
  {list : List Entry}

/-- The entries of the file. -/
def logEntries (s : LogStore checksum) : List Entry :=
  Recovery.entries checksum s.directory.logContents

/-- The counters and the index tell the truth about the file. -/
structure SpaceExact (s : LogStore checksum) : Prop where
  /-- Nothing but entries is in the file. -/
  whole : s.directory.logContents = Recovery.layout checksum s.logEntries
  total : (ByteStore.usage s).totalSize = s.directory.logContents.length
  slots : ∀ x ∈ s.log.index.bindings.entries, x.2.PointsTo checksum s.logEntries x.1
  live : (ByteStore.usage s).liveSize =
    (Recovery.layout checksum (Recovery.live s.logEntries)).length
  live_le_total : (ByteStore.usage s).liveSize ≤ (ByteStore.usage s).totalSize
  garbage : (ByteStore.usage s).garbageSize =
    (Recovery.layout checksum (Recovery.garbage s.logEntries)).length

/-- The file of the second store has one entry for each key that the first one binds, in
the order of the keys, and nothing in it is garbage. -/
structure Compacted (s next : LogStore checksum) : Prop where
  ascending : next.logEntries.Pairwise fun e e' => compare e.key e'.key = .lt
  keys : ∀ k, ByteStore.has s k = true ↔ ∃ e ∈ next.logEntries, e.key = k
  values : ∀ e ∈ next.logEntries,
    e.value.isSome = true ∧ ByteStore.get s e.key = .ok e.value
  garbage : (ByteStore.usage next).garbageSize = 0

/-- The entries of the file are those that are kept. -/
theorem Keeps.logEntries_eq (h : s.Keeps list) : s.logEntries = list := by
  rw [logEntries, h.logContents_eq, Recovery.entries_layout h.fits]

/-- What is live in a log is just what its needed entries take. -/
theorem Keeps.liveSize_eq (h : s.Keeps list) :
    (ByteStore.usage s).liveSize = (Recovery.layout checksum (Recovery.live list)).length := by
  have hperm := Recovery.binding_live_perm list
  have hcounted : (ByteStore.usage s).liveSize = (ByteStore.usage s).logicalSize +
      Entry.headerSize * (ByteStore.usage s).totalCount := rfl
  have hlogical : (ByteStore.usage (Memory.afterChanges list)).logicalSize =
      (Memory.afterChanges list).index.bindings.entries.foldr
        (fun x n => x.1.length + x.2.length + n) 0 := rfl
  have hcount : (ByteStore.usage (Memory.afterChanges list)).totalCount =
      (Memory.afterChanges list).index.bindings.entries.length := rfl
  have : LeftCommutative fun (x : Key × Bytes) n => x.1.length + x.2.length + n :=
    ⟨fun x y n => by omega⟩
  rw [hcounted, h.logicalSize_eq, h.totalCount_eq, hlogical, hcount, Recovery.length_layout_eq,
    hperm.foldr_eq, ← hperm.length_eq, List.length_map]

/-- The total size is the length of the file. -/
theorem Keeps.totalSize_eq (h : s.Keeps list) :
    (ByteStore.usage s).totalSize = (Recovery.layout checksum list).length := by
  have hcounted : (ByteStore.usage s).totalSize = s.log.length := rfl
  rw [hcounted, h.length, Recovery.replay_snd checksum]

/-- What is garbage in a log is just what its other entries take. -/
theorem Keeps.garbageSize_eq (h : s.Keeps list) :
    (ByteStore.usage s).garbageSize =
      (Recovery.layout checksum (Recovery.garbage list)).length := by
  have hcounted : (ByteStore.usage s).garbageSize =
      (ByteStore.usage s).totalSize - (ByteStore.usage s).liveSize := rfl
  have hparts := Recovery.length_layout_live_add checksum list
  rw [hcounted, h.totalSize_eq, h.liveSize_eq]
  omega

/-- In a store whose file consists of entries the counters and the index tell the truth. -/
theorem Keeps.spaceExact (h : s.Keeps list) : s.SpaceExact := by
  have hparts := Recovery.length_layout_live_add checksum list
  refine ⟨?_, ?_, fun x hx => ?_, ?_, ?_, ?_⟩
  · rw [h.logEntries_eq, h.logContents_eq]
  · rw [h.totalSize_eq, h.logContents_eq]
  · rw [h.index] at hx
    rw [h.logEntries_eq]
    exact (Recovery.madeBy_of_get?_replay checksum (SortedMap.get?_of_mem hx)).pointsTo h.fits
  · rw [h.logEntries_eq, h.liveSize_eq]
  · rw [h.liveSize_eq, h.totalSize_eq]
    omega
  · rw [h.logEntries_eq, h.garbageSize_eq]

/-- No entry that is needed is garbage among those that are. -/
theorem garbage_needed (stamp : UInt32) (list : List Entry) :
    Recovery.garbage (needed stamp list) = [] := by
  refine Recovery.garbage_eq_nil (fun e he => ?_) ?_
  · obtain ⟨x, _, rfl⟩ := List.mem_map.mp he
    rfl
  · exact List.pairwise_map.mpr (List.pairwise_map.mp SortedMap.nodup_keys)

/-- An entry that is needed binds its key to what the store says. -/
theorem Keeps.get_of_mem_needed (h : s.Keeps list) {stamp : UInt32} {e : Entry}
    (he : e ∈ needed stamp list) :
    e.value.isSome = true ∧ ByteStore.get s e.key = .ok e.value := by
  obtain ⟨x, hx, rfl⟩ := List.mem_map.mp he
  have hfound := SortedMap.get?_of_mem hx
  exact ⟨rfl, (h.get_eq x.1).trans (congrArg Except.ok hfound)⟩

/-- Just the keys that are bound need an entry. -/
theorem Keeps.has_iff_exists_needed (h : s.Keeps list) (stamp : UInt32) (k : Key) :
    ByteStore.has s k = true ↔ ∃ e ∈ needed stamp list, e.key = k := by
  have hhas : ByteStore.has s k = (Memory.afterChanges list).index.bindings.contains k :=
    h.has_eq k
  rw [hhas, ← SortedMap.mem_keys_iff_contains, SortedMap.keys, List.mem_map, needed]
  simp

/-- A store that keeps exactly what was needed in another is what the other is compacted to. -/
theorem Keeps.compacted (h : s.Keeps list) {stamp : UInt32}
    (hnext : next.Keeps (needed stamp list)) : s.Compacted next := by
  have hascending : (needed stamp list).Pairwise fun e e' => compare e.key e'.key = .lt :=
    List.pairwise_map.mpr (Memory.afterChanges list).index.bindings.ascending
  refine ⟨?_, fun k => ?_, fun e he => ?_, ?_⟩
  · rw [hnext.logEntries_eq]
    exact hascending
  · rw [hnext.logEntries_eq]
    exact h.has_iff_exists_needed stamp k
  · rw [hnext.logEntries_eq] at he
    exact h.get_of_mem_needed he
  · rw [hnext.garbageSize_eq, garbage_needed]
    rfl

/-- Every action succeeds, and entries are kept after it. -/
theorem Keeps.perform (h : s.Keeps list) (hfits : ∀ e, action = .change e → e.Fits) :
    ∃ next list', s.perform action = .ok next ∧ next.Keeps list' := by
  cases action with
  | change e =>
    obtain ⟨list', hkeeps, _⟩ := h.exists_change fun _ _ => hfits e rfl
    exact ⟨_, list', rfl, hkeeps⟩
  | flush => exact ⟨s, list, rfl, h⟩
  | compact stamp =>
    have hrewrites : s.rewrites (.compact stamp) = true := rfl
    obtain ⟨next, stamp', hnext, hkeeps⟩ := h.rewritten hrewrites
    exact ⟨next, _, hnext, hkeeps⟩
  | reopen stamp threshold =>
    obtain ⟨next, hnext, hkeeps⟩ := h.reopen stamp threshold
    exact ⟨next, _, hnext, hkeeps⟩

/-- Every run of actions succeeds, and entries are kept after it. -/
theorem Keeps.performs {actions : List LogAction} (h : s.Keeps list)
    (hfits : ∀ e, .change e ∈ actions → e.Fits) :
    ∃ next list', actions.foldlM LogStore.perform s = .ok next ∧ next.Keeps list' := by
  have hstep : ∀ action ∈ actions, ∀ s : LogStore checksum, (∃ list, s.Keeps list) →
      ∃ next, s.perform action = .ok next ∧ ∃ list', next.Keeps list' := by
    rintro action haction s ⟨list, hs⟩
    obtain ⟨next, list', hnext, hkeeps⟩ := hs.perform fun e he => hfits e (he ▸ haction)
    exact ⟨next, hnext, list', hkeeps⟩
  obtain ⟨next, hnext, list', hkeeps⟩ := exists_foldlM hstep ⟨list, h⟩
  exact ⟨next, list', hnext, hkeeps⟩

/-- Whatever the file of a log holds when it is opened, and whatever is done then, the
counters and the index stay true to the file, and an action that makes a new log leaves
there just one entry for each key, in the order of the keys. -/
theorem space_accounted (checksum : Checksum) (d : Directory) (input : Bytes) (stamp : UInt32)
    (threshold : Option Float) (actions : List LogAction)
    (hfits : ∀ e, .change e ∈ actions → e.Fits) :
    ∃ start s : LogStore checksum,
      opened checksum stamp (d.replaceLog input) threshold = .ok start ∧
      actions.foldlM perform start = .ok s ∧ s.SpaceExact ∧
      ∀ action, s.rewrites action = true →
        ∃ next, s.perform action = .ok next ∧ next.SpaceExact ∧ s.Compacted next := by
  obtain ⟨start, hstart, hopened⟩ := @exists_opened checksum (d.replaceLog input)
    Directory.proper_replaceLog stamp threshold
  obtain ⟨s, list, hs, hkeeps⟩ := hopened.performs hfits
  refine ⟨start, s, hstart, hs, hkeeps.spaceExact, fun action hrewrites => ?_⟩
  obtain ⟨next, _, hnext, hneeded⟩ := hkeeps.rewritten hrewrites
  exact ⟨next, hnext, hneeded.spaceExact, hkeeps.compacted hneeded⟩

/-- Actions that bind two keys, one of them twice, and unbind the other. -/
def wastefulActions : List LogAction :=
  [.change ⟨0, [97], some [49]⟩, .change ⟨1, [98], some []⟩, .flush,
    .change ⟨2, [97], some [50, 51]⟩, .reopen 3 none, .change ⟨4, [98], none⟩]

/-- The bytes that the file holds at first are too few for an entry. -/
theorem space_accounted_sample : ∃ start s : LogStore Sha3.checksum,
    opened Sha3.checksum 0 (Directory.empty.replaceLog [1, 2, 3]) none = .ok start ∧
      wastefulActions.foldlM perform start = .ok s ∧ s.SpaceExact ∧
      ∃ next, s.perform (.compact 5) = .ok next ∧ next.SpaceExact ∧ s.Compacted next := by
  have hfits : ∀ e, .change e ∈ wastefulActions → e.Fits := by
    intro e he
    simp only [wastefulActions, List.mem_cons, LogAction.change.injEq, reduceCtorEq,
      List.not_mem_nil, false_or, or_false] at he
    rcases he with rfl | rfl | rfl | rfl <;>
      exact ⟨by decide, fun v hv => by cases hv <;> decide⟩
  obtain ⟨start, s, hstart, hs, hexact, hrewrites⟩ :=
    space_accounted Sha3.checksum Directory.empty [1, 2, 3] 0 none wastefulActions hfits
  exact ⟨start, s, hstart, hs, hexact, hrewrites (.compact 5) rfl⟩

end LogStore

end RelationalStore
