import RelationalStore.Digest.Sha3
import RelationalStore.Proofs.Log.Kept
import RelationalStore.Proofs.Store.Interval

/-!
# Stores that keep a log against stores in memory

Whatever is done to a store that keeps a log, it answers what a store in memory answers
after the same changes. The entries that the log keeps carry the proof: a change adds one,
opening the log again reads them back, and compaction leaves those that are needed. The one
difference is in improper intervals. A store in memory fails on them once a key has been
bound, while compaction makes a new index, which does not know of keys that were unbound.
-/

namespace RelationalStore

/-- What is done to a store that keeps a log, besides asking it. -/
inductive LogAction where
  /-- A key is bound or unbound. -/
  | change (e : Entry)
  /-- What was written is made sure to stay. -/
  | flush
  /-- The log is compacted, and the entries that stay are written at the given time. -/
  | compact (stamp : UInt32)
  /-- The store is closed and opened again. With a percentage, the log is compacted if the
  share of what is not needed exceeds it. -/
  | reopen (stamp : UInt32) (threshold : Option Float)

namespace LogAction

/-- The change that is made. -/
def entry? : LogAction → Option Entry
  | change e => some e
  | _ => none

/-- The changes that are made, in their order. -/
def changes (actions : List LogAction) : List Entry :=
  actions.filterMap entry?

end LogAction

namespace LogStore

variable {checksum : Checksum} {s next : LogStore checksum} {actions : List LogAction}
  {action : LogAction} {list : List Entry}

/-- The store that opens the log of a directory. With a percentage, the log is compacted if
the share of what is not needed exceeds it. -/
def opened (checksum : Checksum) (stamp : UInt32) (d : Directory) :
    Option Float → Except Error (LogStore checksum)
  | none => .ok (ofDirectory checksum stamp d)
  | some threshold =>
    (Log.recoverWithin checksum stamp threshold d).map fun (d, log) => ⟨d, log, stamp⟩

/-- The store after the log of its directory has been opened again. -/
def reopen (s : LogStore checksum) (stamp : UInt32) (threshold : Option Float) :
    Except Error (LogStore checksum) :=
  opened checksum stamp s.directory threshold

/-- The store after one action. -/
def perform (s : LogStore checksum) : LogAction → Except Error (LogStore checksum)
  | .change e => .ok (s.change e)
  | .flush => .ok s
  | .compact stamp =>
    (s.log.compact checksum stamp s.directory).map fun (d, log) => ⟨d, log, stamp⟩
  | .reopen stamp threshold => s.reopen stamp threshold

/-- The store that is opened in an empty directory, after some actions. -/
def performAll (checksum : Checksum) (actions : List LogAction) :
    Except Error (LogStore checksum) :=
  actions.foldlM perform (ofDirectory checksum 0 Directory.empty)

/-- Whether an action makes a new log of what still is needed. -/
def rewrites (s : LogStore checksum) : LogAction → Bool
  | .compact _ => true
  | .reopen _ (some threshold) => (Log.recover checksum s.directory).2.exceeds threshold
  | _ => false

/-- At some time a new log was made while no key was bound, and no key was bound since. -/
def Emptied (checksum : Checksum) (actions : List LogAction) : Prop :=
  ∃ before action after s, actions = before ++ action :: after ∧
    performAll checksum before = .ok s ∧ s.rewrites action = true ∧
    (Memory.afterChanges (LogAction.changes before)).index.bindings.entries = [] ∧
    ∀ e, .change e ∈ after → e.value = none

/-- The last action is performed on the store after the others. -/
theorem performAll_concat (h : performAll checksum actions = .ok s) :
    performAll checksum (actions ++ [action]) = s.perform action := by
  unfold performAll at h ⊢
  rw [List.foldlM_append, h]
  simp only [bind, Except.bind, List.foldlM_cons, List.foldlM_nil]
  cases s.perform action <;> rfl

/-- The last action adds its change to the others, if it makes one. -/
theorem changes_concat : LogAction.changes (actions ++ [action]) =
    LogAction.changes actions ++ action.entry?.toList := by
  cases hentry : action.entry? <;> simp [LogAction.changes, hentry]

/-- The last action either makes the new log or binds no key. -/
theorem emptied_concat_iff (hs : performAll checksum actions = .ok s) :
    Emptied checksum (actions ++ [action]) ↔
      (s.rewrites action = true ∧
        (Memory.afterChanges (LogAction.changes actions)).index.bindings.entries = []) ∨
      (Emptied checksum actions ∧ ∀ e, action = .change e → e.value = none) := by
  constructor
  · rintro ⟨before, middle, after, found, heq, hfound, hrewrites, hempty, hafter⟩
    rcases List.eq_nil_or_concat' after with rfl | ⟨front, last, rfl⟩
    · obtain ⟨rfl, hlast⟩ := List.append_inj' heq rfl
      obtain rfl : action = middle := by simpa using hlast
      obtain rfl : s = found := Except.ok.inj (hs.symm.trans hfound)
      exact .inl ⟨hrewrites, hempty⟩
    · have hsplit : actions ++ [action] = (before ++ middle :: front) ++ [last] := by
        simpa using heq
      obtain ⟨rfl, hlast⟩ := List.append_inj' hsplit rfl
      obtain rfl : action = last := by simpa using hlast
      refine .inr ⟨⟨before, middle, front, found, rfl, hfound, hrewrites, hempty,
        fun e he => hafter e (List.mem_append_left _ he)⟩, fun e he => hafter e ?_⟩
      simp [he]
  · rintro (⟨hrewrites, hempty⟩ | ⟨⟨before, middle, after, found, rfl, hfound, hrewrites,
      hempty, hafter⟩, hlast⟩)
    · exact ⟨actions, action, [], s, rfl, hs, hrewrites, hempty, by simp⟩
    · refine ⟨before, middle, after ++ [action], found, by simp, hfound, hrewrites, hempty, ?_⟩
      intro e he
      rcases List.mem_append.mp he with he | he
      · exact hafter e he
      · exact hlast e (List.mem_singleton.mp he).symm

/-- The store has come from the actions. It keeps entries that bind what the changes bind,
and its index remembers that a key has been bound unless it was made anew since. -/
structure Follows (s : LogStore checksum) (actions : List LogAction) (list : List Entry) :
    Prop where
  run : performAll checksum actions = .ok s
  keeps : s.Keeps list
  bindings : (Memory.afterChanges list).index.bindings =
    (Memory.afterChanges (LogAction.changes actions)).index.bindings
  used : ¬ Emptied checksum actions → (Memory.afterChanges list).index.used =
    (Memory.afterChanges (LogAction.changes actions)).index.used
  emptied : Emptied checksum actions → (Memory.afterChanges list).index.used = false

/-- An action that makes a new log keeps the entries that still are needed. -/
theorem Follows.rewrite (h : s.Follows actions list) (hrewrites : s.rewrites action = true)
    (hentry : action.entry? = none) (hnext : s.perform action = .ok next) {stamp : UInt32}
    (hkeeps : next.Keeps (needed stamp list)) :
    next.Follows (actions ++ [action]) (needed stamp list) := by
  obtain ⟨hbindings, hused⟩ := afterChanges_needed stamp list
  have hchanges : LogAction.changes (actions ++ [action]) = LogAction.changes actions := by
    simp [changes_concat, hentry]
  have hemptied : Emptied checksum (actions ++ [action]) ↔
      (Memory.afterChanges list).index.bindings.entries = [] := by
    rw [emptied_concat_iff h.run, ← h.bindings]
    constructor
    · rintro (⟨-, hempty⟩ | ⟨hemptied, -⟩)
      · exact hempty
      · exact Memory.entries_eq_nil_of_unused (h.emptied hemptied)
    · exact fun hempty => .inl ⟨hrewrites, hempty⟩
  refine ⟨(performAll_concat h.run).trans hnext, hkeeps, ?_, fun hnot => ?_, fun hyes => ?_⟩
  · rw [hbindings, hchanges, h.bindings]
  · -- where a key is bound, both the new index and that in memory have held one
    have hbound : (Memory.afterChanges list).index.bindings.entries ≠ [] := mt hemptied.mpr hnot
    rw [hused.mpr hbound, hchanges]
    by_contra hunused
    rw [eq_comm, Bool.not_eq_true] at hunused
    exact hbound (h.bindings ▸ Memory.entries_eq_nil_of_unused hunused)
  · -- where none is bound, nothing was put in the new index
    rw [← Bool.not_eq_true, hused, not_not]
    exact hemptied.mp hyes

/-- An action that neither makes a change nor a new log keeps the entries. -/
theorem Follows.stay (h : s.Follows actions list) (hrewrites : s.rewrites action = false)
    (hentry : action.entry? = none) (hnext : s.perform action = .ok next)
    (hkeeps : next.Keeps list) : next.Follows (actions ++ [action]) list := by
  have hchanges : LogAction.changes (actions ++ [action]) = LogAction.changes actions := by
    simp [changes_concat, hentry]
  have hemptied : Emptied checksum (actions ++ [action]) ↔ Emptied checksum actions := by
    rw [emptied_concat_iff h.run]
    cases action <;> simp_all [LogAction.entry?]
  refine ⟨(performAll_concat h.run).trans hnext, hkeeps, ?_, fun hnot => ?_, fun hyes => ?_⟩
  · rw [hchanges, h.bindings]
  · rw [hchanges, h.used (mt hemptied.mpr hnot)]
  · exact h.emptied (hemptied.mp hyes)

/-- What a change makes of the entries, it makes of the changes. -/
theorem Follows.change {e : Entry} (h : s.Follows actions list) (hfits : e.Fits) :
    ∃ list', (s.change e).Follows (actions ++ [.change e]) list' := by
  obtain ⟨list', hkeeps, hlist'⟩ := h.keeps.exists_change fun _ _ => hfits
  have hchanges : Memory.afterChanges (LogAction.changes (actions ++ [.change e])) =
      ByteStore.change (Memory.afterChanges (LogAction.changes actions)) e := by
    rw [← Memory.afterChanges_concat]
    exact congrArg Memory.afterChanges changes_concat
  have hemptied : Emptied checksum (actions ++ [.change e]) ↔
      Emptied checksum actions ∧ e.value = none := by
    simp [emptied_concat_iff h.run, rewrites]
  refine ⟨list', performAll_concat h.run, hkeeps, ?_, fun hnot => ?_, fun hyes => ?_⟩
  · rw [hlist', hchanges, Memory.bindings_change, Memory.bindings_change, h.bindings]
  · rw [hlist', hchanges, Memory.used_change, Memory.used_change]
    cases hvalue : e.value with
    | some v => rw [Option.isSome_some, Bool.or_true, Bool.or_true]
    | none => rw [h.used fun hbefore => hnot (hemptied.mpr ⟨hbefore, hvalue⟩)]
  · obtain ⟨hbefore, hvalue⟩ := hemptied.mp hyes
    rw [hlist', Memory.used_change, h.emptied hbefore, hvalue]
    rfl

/-- Opening a log succeeds. It keeps the entries at its start, or those of them that still
are needed. -/
theorem exists_opened {d : Directory} (hproper : d.Proper) (stamp : UInt32)
    (threshold : Option Float) :
    ∃ s, opened checksum stamp d threshold = .ok s ∧
      s.Keeps (if threshold.any (Log.recover checksum d).2.exceeds
        then needed stamp (Recovery.entries checksum d.logContents)
        else Recovery.entries checksum d.logContents) := by
  have hopened := @keeps_ofDirectory checksum d hproper stamp
  cases threshold with
  | none => exact ⟨_, rfl, hopened⟩
  | some threshold =>
    rw [Option.any_some]
    cases hexceeds : (Log.recover checksum d).2.exceeds threshold with
    | false =>
      refine ⟨LogStore.ofDirectory checksum stamp d, ?_, hopened⟩
      simp [opened, Log.recoverWithin, hexceeds, Except.map, LogStore.ofDirectory]
    | true =>
      obtain ⟨⟨d', log⟩, hcompact, hkeeps⟩ := hopened.compact stamp
      refine ⟨⟨d', log, stamp⟩, ?_, hkeeps⟩
      simp only [LogStore.ofDirectory] at hcompact
      simp [opened, Log.recoverWithin, hexceeds, hcompact, Except.map]

/-- Opening the log again succeeds. It keeps the entries, or those that still are needed. -/
theorem Keeps.reopen (h : s.Keeps list) (stamp : UInt32) (threshold : Option Float) :
    ∃ next, s.reopen stamp threshold = .ok next ∧
      next.Keeps (if s.rewrites (.reopen stamp threshold) then needed stamp list else list) := by
  obtain ⟨next, hnext, hkeeps⟩ := @exists_opened checksum _ h.proper stamp threshold
  rw [h.logContents_eq, Recovery.entries_layout h.fits] at hkeeps
  refine ⟨next, hnext, ?_⟩
  cases threshold <;> exact hkeeps

/-- An action that makes a new log leaves in it what is needed. -/
theorem Keeps.rewritten (h : s.Keeps list) (hrewrites : s.rewrites action = true) :
    ∃ next stamp, s.perform action = .ok next ∧ next.Keeps (needed stamp list) := by
  cases action with
  | change e => cases hrewrites
  | flush => cases hrewrites
  | compact stamp =>
    obtain ⟨⟨d, log⟩, hcompact, hkeeps⟩ := h.compact stamp
    refine ⟨⟨d, log, stamp⟩, stamp, ?_, hkeeps⟩
    rw [LogStore.perform, hcompact]
    rfl
  | reopen stamp threshold =>
    obtain ⟨next, hnext, hkeeps⟩ := h.reopen stamp threshold
    rw [hrewrites, if_pos rfl] at hkeeps
    exact ⟨next, stamp, hnext, hkeeps⟩

/-- Every action succeeds, and what the store keeps after it still follows the actions. -/
theorem Follows.perform (h : s.Follows actions list)
    (hfits : ∀ e, action = .change e → e.Fits) :
    ∃ next list', s.perform action = .ok next ∧ next.Follows (actions ++ [action]) list' := by
  cases action with
  | change e =>
    obtain ⟨list', hfollows⟩ := h.change (hfits e rfl)
    exact ⟨_, list', rfl, hfollows⟩
  | flush => exact ⟨s, list, rfl, h.stay rfl rfl rfl h.keeps⟩
  | compact stamp =>
    have hrewrites : s.rewrites (.compact stamp) = true := rfl
    obtain ⟨next, stamp', hnext, hkeeps⟩ := h.keeps.rewritten hrewrites
    exact ⟨next, _, hnext, h.rewrite hrewrites rfl hnext hkeeps⟩
  | reopen stamp threshold =>
    obtain ⟨next, hnext, hkeeps⟩ := h.keeps.reopen stamp threshold
    cases hrewrites : s.rewrites (.reopen stamp threshold) with
    | false =>
      rw [hrewrites] at hkeeps
      exact ⟨next, _, hnext, h.stay hrewrites rfl hnext hkeeps⟩
    | true =>
      rw [hrewrites] at hkeeps
      exact ⟨next, _, hnext, h.rewrite hrewrites rfl hnext hkeeps⟩

/-- Every run of actions succeeds, and what the store keeps then follows the actions. -/
theorem exists_follows (checksum : Checksum) (hfits : ∀ e, .change e ∈ actions → e.Fits) :
    ∃ (s : LogStore checksum) (list : List Entry), s.Follows actions list := by
  induction actions using List.reverseRecOn with
  | nil =>
    exact ⟨_, [], rfl, keeps_ofDirectory_empty 0, rfl, fun _ => rfl, fun _ => rfl⟩
  | append_singleton actions action ih =>
    obtain ⟨s, list, hfollows⟩ := ih fun e he => hfits e (List.mem_append_left _ he)
    obtain ⟨next, list', _, hnext⟩ := hfollows.perform fun e he =>
      hfits e (List.mem_append_right _ (he ▸ List.mem_cons_self))
    exact ⟨next, list', hnext⟩

variable {interval : Interval}

/-- Whether an index remembers to have held a key matters in improper intervals only. -/
theorem range_congr {m m' : KeyIndex Bytes} (hbindings : m.bindings = m'.bindings)
    (hused : interval.improper = true → m.used = m'.used) :
    m.range interval = m'.range interval := by
  unfold KeyIndex.range
  cases himproper : interval.improper with
  | false => rw [hbindings, Bool.and_false, Bool.and_false]
  | true => rw [hbindings, hused himproper]

/-- A scan lists what the changes bind in the interval, unless the interval is improper and the
log has been emptied. -/
theorem Follows.scan_eq (h : s.Follows actions list)
    (himproper : interval.improper = true → ¬ Emptied checksum actions) :
    ByteStore.scan s interval =
      ByteStore.scan (Memory.afterChanges (LogAction.changes actions)) interval :=
  (h.keeps.scan_eq interval).trans
    (range_congr h.bindings fun hyes => h.used (himproper hyes))

/-- An index that was made anew and has held no key since has none even in an improper
interval. -/
theorem Follows.scan_eq_nil (h : s.Follows actions list) (hemptied : Emptied checksum actions) :
    ByteStore.scan s interval = .ok [] := by
  have hunused := h.emptied hemptied
  have hscan : ByteStore.scan (Memory.afterChanges list) interval =
      (Memory.afterChanges list).index.range interval := rfl
  rw [h.keeps.scan_eq, hscan, KeyIndex.range, hunused, Memory.entries_eq_nil_of_unused hunused]
  rfl

/-- After any actions on a log that is opened in an empty directory, the store answers what
a store in memory answers after the same changes. The exception are improper intervals, once
a new log was made while no key was bound and until a key is bound again: the answer to them
is then the empty list. -/
theorem performAll_answers (checksum : Checksum) (actions : List LogAction)
    (hfits : ∀ e, .change e ∈ actions → e.Fits) :
    ∃ s, performAll checksum actions = .ok s ∧
      let m := Memory.afterChanges (LogAction.changes actions)
      (∀ k, ByteStore.get s k = ByteStore.get m k) ∧
      (∀ k, ByteStore.has s k = ByteStore.has m k) ∧
      (∀ interval, (interval.improper = true → ¬ Emptied checksum actions) →
        ByteStore.scan s interval = ByteStore.scan m interval) ∧
      (∀ interval, interval.improper = true → Emptied checksum actions →
        ByteStore.scan s interval = .ok []) ∧
      (∀ start, ByteStore.scanStart s start = ByteStore.scanStart m start) ∧
      (ByteStore.usage s).totalCount = (ByteStore.usage m).totalCount ∧
      (ByteStore.usage s).logicalSize = (ByteStore.usage m).logicalSize := by
  obtain ⟨s, list, hfollows⟩ := exists_follows checksum hfits
  have hbindings := hfollows.bindings
  refine ⟨s, hfollows.run, fun k => ?_, fun k => ?_, fun interval himproper => ?_,
    fun interval _ hemptied => ?_, fun start => ?_, ?_, ?_⟩
  · exact (hfollows.keeps.get_eq k).trans
      (congrArg (fun bindings : SortedMap Key Bytes => Except.ok (bindings.get? k)) hbindings)
  · exact (hfollows.keeps.has_eq k).trans
      (congrArg (fun bindings : SortedMap Key Bytes => bindings.contains k) hbindings)
  · exact hfollows.scan_eq himproper
  · exact hfollows.scan_eq_nil hemptied
  · refine hfollows.scan_eq fun himproper => ?_
    rw [Interval.improper_startingWith] at himproper
    cases himproper
  · exact hfollows.keeps.totalCount_eq.trans (congrArg SortedMap.size hbindings)
  · exact hfollows.keeps.logicalSize_eq.trans
      (congrArg (fun bindings => Memory.size ⟨⟨bindings, true⟩⟩) hbindings)

/-- Actions that rebind a key, compact the log and open it again. -/
def sampleActions : List LogAction :=
  [.change ⟨0, [97], some [49]⟩, .change ⟨1, [97], some [50]⟩, .flush, .compact 2,
    .change ⟨3, [98], some [51]⟩, .reopen 4 none]

/-- After the actions of the sample the store answers as the changes say. -/
theorem answers_sample : ∃ s, performAll Sha3.checksum sampleActions = .ok s ∧
    ByteStore.get s [97] = .ok (some [50]) ∧ ByteStore.has s [99] = false ∧
    ByteStore.scanStart s [98] = .ok [([98], [51])] ∧ (ByteStore.usage s).totalCount = 2 := by
  have hfits : ∀ e, .change e ∈ sampleActions → e.Fits := by
    intro e he
    simp only [sampleActions, List.mem_cons, LogAction.change.injEq, reduceCtorEq,
      List.not_mem_nil, false_or, or_false] at he
    rcases he with rfl | rfl | rfl <;>
      exact ⟨by decide, fun v hv => by cases hv; decide⟩
  obtain ⟨s, hs, hget, hhas, _, _, hstart, hcount, _⟩ :=
    performAll_answers Sha3.checksum sampleActions hfits
  exact ⟨s, hs, hget [97], hhas [99], hstart [98], hcount⟩

/-- Actions that leave no key bound and then compact the log. -/
def emptyingActions : List LogAction :=
  [.change ⟨0, [97], some [49]⟩, .change ⟨1, [97], none⟩, .compact 2]

/-- After these actions the two stores differ on an improper interval. -/
theorem scan_ne_after_emptying : ∃ s, performAll Sha3.checksum emptyingActions = .ok s ∧
    ByteStore.scan s ⟨.excluded [97], .excluded [97]⟩ = .ok [] ∧
    ByteStore.scan (Memory.afterChanges (LogAction.changes emptyingActions))
      ⟨.excluded [97], .excluded [97]⟩ = .error .improperInterval := by
  have hfits : ∀ e, .change e ∈ emptyingActions → e.Fits := by
    intro e he
    simp only [emptyingActions, List.mem_cons, LogAction.change.injEq, reduceCtorEq,
      List.not_mem_nil, or_false] at he
    rcases he with rfl | rfl
    · exact ⟨by decide, fun v hv => by cases hv; decide⟩
    · exact ⟨by decide, fun v hv => by cases hv⟩
  have hbefore : ∀ e, .change e ∈ emptyingActions.take 2 → e.Fits := fun e he =>
    hfits e (List.mem_of_mem_take he)
  obtain ⟨before, _, hstart⟩ := exists_follows Sha3.checksum hbefore
  obtain ⟨s, _, hfollows⟩ := exists_follows Sha3.checksum hfits
  have hemptied : Emptied Sha3.checksum emptyingActions :=
    ⟨emptyingActions.take 2, .compact 2, [], before, rfl, hstart.run, rfl, rfl, by simp⟩
  exact ⟨s, hfollows.run, hfollows.scan_eq_nil hemptied, rfl⟩

end LogStore

end RelationalStore
