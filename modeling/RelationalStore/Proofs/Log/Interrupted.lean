import RelationalStore.Log.Interrupted
import RelationalStore.Proofs.Log.Uncounted

/-!
# Attempts that may fail

The bytes that a failed write leaves in the file are not counted by the open log. So they
move every value that is written later away from where the log looks for it, and nothing
written behind them is found when the log is opened again, as long as it is shorter than
what the header among them announces. A failure that leaves no bytes does no harm, and
neither does one after which the log is opened again before anything else is written.
-/

namespace RelationalStore

namespace LogStore

variable {checksum : Checksum} {s : LogStore checksum} {list : List Entry} {a : Attempt}
  {f : Fault} {k : Key} {v : Bytes} {n : Nat}

/-- The number of bytes that an attempt leaves in the file if it fails. -/
def spill (s : LogStore checksum) (a : Attempt) : Nat :=
  match (s.attempt a).1 with
  | .ok () => 0
  | .error _ => (a.fault.map Fault.taken).getD 0

/-- The store after several attempts. -/
def attemptAll (s : LogStore checksum) (attempts : List Attempt) : LogStore checksum :=
  attempts.foldl (fun s a => (s.attempt a).2) s

/-- The number of bytes that failed attempts have left in the file. -/
def spilled : LogStore checksum → List Attempt → Nat
  | _, [] => 0
  | s, a :: rest => s.spill a + spilled (s.attempt a).2 rest

/-- The write of an attempt meets a fault, and the first bytes of the entry are left. -/
structure Breaks (s : LogStore checksum) (a : Attempt) (f : Fault) : Prop where
  fault : a.fault = some f
  answer : (s.attempt a).1 = .error (.io f.cause)
  log : (s.attempt a).2.log = s.log
  directory : (s.attempt a).2.directory =
    s.directory.append s.log.file ((a.entry.bytes checksum).take f.taken)

/-- An attempt without a fault is a change. -/
theorem attempt_of_no_fault (hfault : a.fault = none) :
    s.attempt a = (.ok (), s.change a.entry) := by
  unfold attempt LogStore.change ByteStore.change
  rw [hfault]
  cases a.entry.value with
  | some v => rfl
  | none => simp only [Log.tryDelete_none]; rfl

/-- An attempt without a fault is a change. One with a fault fails, unless there is nothing to
write. -/
theorem attempt_cases (s : LogStore checksum) (a : Attempt) :
    (a.fault = none ∧ s.attempt a = (.ok (), s.change a.entry)) ∨
      s.attempt a = (.ok (), { s with stamp := a.entry.stamp }) ∨ ∃ f, s.Breaks a f := by
  obtain ⟨⟨stamp, k, value⟩, fault, broken⟩ := a
  cases fault with
  | none => exact .inl ⟨rfl, attempt_of_no_fault rfl⟩
  | some f =>
    right
    cases value with
    | some v => exact .inr ⟨f, rfl, rfl, rfl, rfl⟩
    | none =>
      cases hbound : s.log.index.bindings.contains k with
      | true =>
        have hfails : s.attempt ⟨⟨stamp, k, none⟩, some f, broken⟩ = (.error (.io f.cause),
            LogStore.step { s with stamp := stamp } (s.directory.append s.log.file
              ((Entry.bytes checksum ⟨stamp, k, none⟩).take f.taken), s.log)) := by
          simp only [attempt, Log.tryDelete, hbound, if_true, Log.tryAppend]
        right
        refine ⟨f, rfl, ?_, ?_, ?_⟩ <;> rw [hfails] <;> rfl
      | false =>
        left
        simp only [attempt, Log.tryDelete, hbound, Bool.false_eq_true, if_false]
        rfl

/-- A write that meets a fault leaves the bytes that were taken before. -/
theorem Breaks.spill_eq (h : s.Breaks a f) : s.spill a = f.taken := by
  rw [spill, h.answer, h.fault]
  rfl

/-- What an attempt leaves in the file is not counted. -/
theorem Uncounted.attempt (h : s.Uncounted n) (a : Attempt) :
    (s.attempt a).2.Uncounted (n + s.spill a) := by
  rcases s.attempt_cases a with ⟨_, hdone⟩ | hidle | ⟨f, hbreaks⟩
  · rw [spill, hdone]
    exact h.change a.entry
  · rw [spill, hidle]
    exact ⟨h.made, h.length⟩
  · have hbytes : ((a.entry.bytes checksum).take f.taken).length = f.taken := by
      have hproper := a.broken f hbreaks.fault
      rw [List.length_take, Entry.length_bytes]
      omega
    have hcount := h.append hbreaks.log hbreaks.directory
    rwa [hbytes, ← hbreaks.spill_eq] at hcount

/-- What failed attempts leave in the file is what the log does not count. -/
theorem Uncounted.attemptAll (h : s.Uncounted n) (attempts : List Attempt) :
    (s.attemptAll attempts).Uncounted (n + s.spilled attempts) := by
  induction attempts generalizing s n with
  | nil => exact h
  | cons a attempts ih =>
    have hrest := ih (h.attempt a)
    rwa [Nat.add_assoc] at hrest

/-- An attempt never takes anything away from the file. -/
theorem grows_attempt (hmade : s.log.file < s.directory.files.length) (a : Attempt) :
    Grows s (s.attempt a).2 := by
  rcases s.attempt_cases a with ⟨_, hdone⟩ | hidle | ⟨f, hbreaks⟩
  · rw [hdone]
    exact grows_change hmade a.entry
  · rw [hidle]
    exact ⟨rfl, rfl, List.prefix_rfl⟩
  · exact grows_append hmade (congrArg Log.file hbreaks.log) hbreaks.directory

/-- Attempts never take anything away from the file. -/
theorem Uncounted.grows_attemptAll (h : s.Uncounted n) (attempts : List Attempt) :
    Grows s (s.attemptAll attempts) := by
  induction attempts generalizing s n with
  | nil => exact Grows.refl s
  | cons a attempts ih => exact (grows_attempt h.made a).trans (ih (h.attempt a))

/-- An attempt leaves a key unless it succeeds in writing to it. -/
theorem leaves_attempt (hmade : s.log.file < s.directory.files.length)
    (hkey : a.entry.key = k → a.fault ≠ none) : Leaves k s (s.attempt a).2 := by
  refine ⟨grows_attempt hmade a, ?_⟩
  rcases s.attempt_cases a with ⟨hfault, hdone⟩ | hidle | ⟨f, hbreaks⟩
  · rw [hdone]
    exact (leaves_change hmade fun hsame => hkey hsame hfault).slot
  · rw [hidle]
  · rw [hbreaks.log]

/-- As long as no attempt to bind a key succeeds, the log looks for its value where it did. -/
theorem Uncounted.leaves_attemptAll (h : s.Uncounted n) (attempts : List Attempt)
    (hkey : ∀ a ∈ attempts, a.entry.key = k → a.fault ≠ none) :
    Leaves k s (s.attemptAll attempts) := by
  induction attempts generalizing s n with
  | nil => exact Leaves.refl k s
  | cons a attempts ih =>
    obtain ⟨hfirst, hkey⟩ := List.forall_mem_cons.mp hkey
    exact (leaves_attempt h.made hfirst).trans (ih (h.attempt a) hkey)

/-- An attempt that leaves no bytes keeps whole entries. -/
theorem Keeps.attempt (h : s.Keeps list) (hfits : a.entry.Fits) (hclean : s.spill a = 0) :
    ∃ list', (s.attempt a).2.Keeps list' := by
  rcases s.attempt_cases a with ⟨_, hdone⟩ | hidle | ⟨f, hbreaks⟩
  · obtain ⟨list', hkeeps, _⟩ := h.exists_change fun _ _ => hfits
    rw [hdone]
    exact ⟨list', hkeeps⟩
  · rw [hidle]
    exact ⟨list, h.withStamp a.entry.stamp⟩
  · have hnothing : (s.attempt a).2.directory = s.directory := by
      rw [hbreaks.directory, ← hbreaks.spill_eq, hclean, List.take_zero,
        Directory.append_nil h.made]
    refine ⟨list, h.fits, ?_, ?_, ?_, ?_, ?_⟩ <;> rw [hbreaks.log]
    · rw [hnothing, h.current]
    · rw [hnothing]
      exact h.made
    · rw [hnothing, h.contents]
    · exact h.index
    · exact h.length

/-- If no failed attempt leaves a byte, the file consists of entries after all of them. -/
theorem Keeps.attemptAll (h : s.Keeps list) {attempts : List Attempt}
    (hfits : ∀ a ∈ attempts, a.entry.Fits) (hclean : s.spilled attempts = 0) :
    ∃ list', (s.attemptAll attempts).Keeps list' := by
  induction attempts generalizing s list with
  | nil => exact ⟨list, h⟩
  | cons a attempts ih =>
    obtain ⟨hfirst, hfits⟩ := List.forall_mem_cons.mp hfits
    obtain ⟨hnow, hlater⟩ := Nat.add_eq_zero_iff.mp hclean
    obtain ⟨list', hkeeps⟩ := h.attempt hfirst hnow
    exact ih hkeeps hfits hlater

/-- When the log is opened again, the entries in front of all attempts are found, and then what
is read off the bytes behind them. -/
theorem Keeps.ofDirectory_attemptAll (h : s.Keeps list) (attempts : List Attempt)
    (time : UInt32) :
    (ofDirectory checksum time (s.attemptAll attempts).directory).Keeps
      (list ++ Recovery.entries checksum ((s.attemptAll attempts).directory.logContents.drop
        (Recovery.layout checksum list).length)) :=
  h.ofDirectory_of_grows (h.uncounted.grows_attemptAll attempts)
    (h.uncounted.attemptAll attempts).made time

/-- The file ends in the first bytes of the entry whose write met the fault. -/
theorem Breaks.logContents_eq (hbreaks : s.Breaks a f) (h : s.Keeps list) :
    (s.attempt a).2.directory.logContents =
      Recovery.layout checksum list ++ (a.entry.bytes checksum).take f.taken := by
  rw [hbreaks.directory, Directory.logContents_append h.current h.made, h.logContents_eq]

/-- A failed write does no harm if the log is opened again before anything else is written. -/
theorem Breaks.repaired (hbreaks : s.Breaks a f) (h : s.Keeps list) (hfits : a.entry.Fits)
    (time : UInt32) :
    (ofDirectory checksum time (s.attempt a).2.directory).Keeps list := by
  refine h.ofDirectory_of_unread ?_ (hbreaks.logContents_eq h)
    (Entry.read?_take_eq_none hfits (a.broken f hbreaks.fault)) time
  rw [hbreaks.directory]
  exact h.proper.append

/-- Where a failed write leaves a whole header, nothing behind it is found until the file has
grown as far as the header announces. -/
theorem Breaks.lost (hbreaks : s.Breaks a f) (h : s.Keeps list) (hfits : a.entry.Fits)
    (hheader : Entry.headerSize ≤ f.taken) (rest : List Attempt)
    (hshort : (s.attemptAll (a :: rest)).directory.logContents.length <
      (Recovery.layout checksum list).length + a.entry.size) (time : UInt32) :
    (ofDirectory checksum time (s.attemptAll (a :: rest)).directory).Keeps list := by
  have hkeeps := h.ofDirectory_attemptAll (a :: rest) time
  obtain ⟨more, hmore⟩ : (s.attempt a).2.directory.logContents <+:
      (s.attemptAll (a :: rest)).directory.logContents :=
    ((h.uncounted.attempt a).grows_attemptAll rest).logContents
      ((grows_attempt h.made a).current_eq h.current)
  have hbroken := a.broken f hbreaks.fault
  rw [hbreaks.logContents_eq h, List.append_assoc] at hmore
  rw [← hmore, List.length_append, List.length_append, List.length_take, Entry.length_bytes]
    at hshort
  have hunread : Entry.read? checksum ((a.entry.bytes checksum).take f.taken ++ more) = none :=
    Entry.read?_take_append_eq_none hfits hheader (by omega)
  rwa [← hmore, List.drop_left, Recovery.entries_of_read?_eq_none hunread, List.append_nil]
    at hkeeps

/-- A change that stands between attempts is an attempt without a fault. -/
theorem attemptAll_change_attemptAll (e : Entry) (clean rest after : List Attempt) (a : Attempt) :
    ((s.attemptAll (clean ++ a :: rest)).change e).attemptAll after =
      (s.attemptAll clean).attemptAll (a :: (rest ++ ⟨e, none, by simp⟩ :: after)) := by
  have hset (r : LogStore checksum) : (r.attempt ⟨e, none, by simp⟩).2 = r.change e :=
    congrArg Prod.snd (attempt_of_no_fault rfl)
  simp only [LogStore.attemptAll, List.foldl_append, List.foldl_cons, hset]

/-- What becomes of a value that is bound after any attempts, some of which may have failed
and left a part of their entry in the file. The log reads as many bytes as the value has,
but as far in front of it as failed attempts had left bytes by then; so it reads the value
if they had left none, whatever fails later. When the log is opened again, the value is
found if no failed attempt leaves bytes before or after. In any case what was kept before
the first failure is found, and then what is read off the bytes behind; which is nothing if
the failure has left a whole header and the file ends before what the header announces. -/
theorem Keeps.set_after_faults (h : s.Keeps list) (before after : List Attempt) (stamp : UInt32)
    (k : Key) (v : Bytes) (hroom : v.length < UInt32.size)
    (hlast : ∀ a ∈ after, a.entry.key = k → a.fault ≠ none) :
    let e : Entry := ⟨stamp, k, some v⟩
    let t := s.attemptAll before
    let bound := t.change e
    let u := bound.attemptAll after
    let contents := u.directory.logContents
    let place := t.directory.logContents.length + Entry.headerSize + k.length
    let reopened := fun time => (ofDirectory checksum time u.directory : LogStore checksum)
    (∀ a : Attempt, a.entry = e → a.fault = none → t.attempt a = (.ok (), bound)) ∧
    (v <+: contents.drop place ∧ ByteStore.get u k =
      .ok (some ((contents.drop (place - s.spilled before)).take v.length))) ∧
    (s.spilled before = 0 → ByteStore.get u k = .ok (some v)) ∧
    (s.spilled before = 0 → bound.spilled after = 0 →
      (∀ a ∈ before, a.entry.Fits) → e.Fits → (∀ a ∈ after, a.entry.Fits) →
      ∀ time, ByteStore.get (reopened time) k = .ok (some v)) ∧
    ∀ clean a f rest, before = clean ++ a :: rest →
      let kept := s.attemptAll clean
      s.spilled clean = 0 → (∀ a ∈ clean, a.entry.Fits) → kept.Breaks a f →
      ∃ list', kept.Keeps list' ∧
        (∀ time, (reopened time).Keeps (list' ++ Recovery.entries checksum
          (contents.drop kept.directory.logContents.length))) ∧
        (a.entry.Fits → Entry.headerSize ≤ f.taken →
          contents.length < kept.directory.logContents.length + a.entry.size →
          ∀ time k', ByteStore.get (reopened time) k' = ByteStore.get kept k') := by
  intro e t bound u contents place reopened
  have hcount : t.Uncounted (s.spilled before) :=
    Nat.zero_add (s.spilled before) ▸ h.uncounted.attemptAll before
  have hstamped : ({ t with stamp := stamp } : LogStore checksum).Uncounted (s.spilled before) :=
    ⟨hcount.made, hcount.length⟩
  have hcurrent : t.directory.log = some t.log.file :=
    (h.uncounted.grows_attemptAll before).current_eq h.current
  have hleaves : Leaves k bound u := (hcount.change e).leaves_attemptAll after hlast
  have hplace : t.fileContents = t.directory.logContents :=
    (Directory.logContents_eq hcurrent).symm
  have hcontents : u.fileContents = contents :=
    (Directory.logContents_eq (hleaves.current_eq hcurrent)).symm
  have hreads := hstamped.get_eq hroom hleaves
  have hfound : s.spilled before = 0 → ByteStore.get u k = .ok (some v) := by
    intro hnone
    rw [hnone] at hstamped
    exact hstamped.get_eq_value hroom hleaves
  refine ⟨?_, ?_, hfound, ?_, ?_⟩
  · intro a ha hfault
    rw [attempt_of_no_fault hfault, ha]
  · have hstart : ({ t with stamp := stamp } : LogStore checksum).fileContents =
        t.directory.logContents := hplace
    rwa [hstart, hcontents] at hreads
  · intro hnone hnoneAfter hbefore hfits hafter time
    obtain ⟨_, ht⟩ := h.attemptAll hbefore hnone
    have hbound := ht.change hfits fun hunbinds => by cases hunbinds
    obtain ⟨_, hu⟩ := hbound.attemptAll hafter hnoneAfter
    have hopen : reopened time = { u with stamp := time } := hu.ofDirectory_eq time
    rw [hopen]
    exact hfound hnone
  · intro clean a f rest hsplit kept hclean hfits hbreaks
    obtain ⟨list', hkept⟩ := h.attemptAll hfits hclean
    let later := rest ++ ⟨e, none, by simp⟩ :: after
    have hall : u = kept.attemptAll (a :: later) := by
      simp only [u, bound, t, kept, later, hsplit]
      exact attemptAll_change_attemptAll e clean rest after a
    refine ⟨list', hkept, fun time => ?_, fun hroom hheader hshort time k' => ?_⟩
    · have hkeeps := hkept.ofDirectory_attemptAll (a :: later) time
      rwa [← hall, ← hkept.logContents_eq] at hkeeps
    · rw [hkept.logContents_eq] at hshort
      have hlost := hbreaks.lost hkept hroom hheader later (by rw [← hall]; exact hshort) time
      rw [← hall] at hlost
      rw [hlost.get_eq, hkept.get_eq]

/-- An attempt to bind a key to a hundred bytes, of which the first is taken with the header and
the key. -/
def brokenAttempt : Attempt where
  entry := ⟨1, [99], some (List.replicate 100 48)⟩
  fault := some ⟨22, "no space left"⟩
  broken := by simp [Entry.size, Entry.headerSize]

/-- An attempt to bind a key, without a fault. -/
def soundAttempt : Attempt where
  entry := ⟨2, [98], some [50]⟩
  fault := none
  broken := by simp

/-- In every store the attempt meets its fault when the header, the key and one byte of the
value have been taken. -/
theorem brokenAttempt_breaks (s : LogStore checksum) :
    s.Breaks brokenAttempt ⟨22, "no space left"⟩ :=
  ⟨rfl, rfl, rfl, rfl⟩

/-- A failure that comes later does no harm to a value. -/
theorem set_after_faults_sample :
    let start : LogStore Sha3.checksum := ofDirectory Sha3.checksum 0 Directory.empty
    ByteStore.get ((start.attempt soundAttempt).2.attempt brokenAttempt).2 [98] =
      .ok (some [50]) := by
  intro start
  have hstart : start.Keeps [] := keeps_ofDirectory_empty 0
  obtain ⟨_, _, hget, _⟩ := hstart.set_after_faults [] [brokenAttempt] 2 [98] [50] (by decide)
    (by simp [brokenAttempt])
  exact hget rfl

/-- After a failure that leaves bytes, a value of one byte is bound successfully. But the log
reads one of these bytes for it, and does not find it when it is opened again. -/
theorem set_after_fault_lost :
    let start : LogStore Sha3.checksum := ofDirectory Sha3.checksum 0 Directory.empty
    let broken := start.attempt brokenAttempt
    let bound := broken.2.attempt soundAttempt
    broken.1 = .error (.io "no space left") ∧ bound.1 = .ok () ∧
      ByteStore.get bound.2 [98] = .ok (some [48]) ∧
      ByteStore.get (ofDirectory Sha3.checksum 3 bound.2.directory : LogStore Sha3.checksum) [98] =
        .ok none := by
  intro start broken bound
  have hstart : start.Keeps [] := keeps_ofDirectory_empty 0
  have hfits : brokenAttempt.entry.Fits := fits_binding_iff.mpr (by decide)
  have hlost := (brokenAttempt_breaks start).lost hstart hfits (by decide) [soundAttempt]
    (by decide +kernel) 3
  refine ⟨rfl, rfl, by decide +kernel, ?_⟩
  exact (hlost.get_eq [98]).trans rfl

end LogStore

end RelationalStore
