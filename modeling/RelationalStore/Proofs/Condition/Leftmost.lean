import RelationalStore.Proofs.Condition.Equality

/-!
# Which fault a condition reports

Both sides of every combination are evaluated, and every row up to the first that fails. So a
condition fails on some rows exactly if one of its comparisons fails on one of them, wherever
it stands, and the fault is that of the leftmost comparison that fails on the first such row.
Which fault is reported depends on the order of the comparisons, then. Whether there is one
does not, and neither do the rows that are found if there is none.
-/

namespace RelationalStore

section Faults

variable {ε α β : Type} {x : Except ε α} {e : ε}

/-- What an operation fails with, if it does. -/
def fault? : Except ε α → Option ε
  | .error e => some e
  | .ok _ => none

/-- The fault of an operation is the error with which it fails. -/
theorem fault?_eq_some_iff : fault? x = some e ↔ x = .error e := by
  cases x <;> simp [fault?]

/-- An operation without a fault succeeds. -/
theorem fault?_eq_none_iff : fault? x = none ↔ ∃ a, x = .ok a := by
  cases x <;> simp [fault?]

/-- An operation fails exactly if it does not succeed. -/
theorem exists_error_iff : (∃ e, x = .error e) ↔ ¬ ∃ a, x = .ok a := by
  cases x <;> simp

/-- A sequence of two operations fails with the fault of the first one, or else of the second,
if this does not depend on what the first one has given. -/
theorem fault?_bind {f : α → Except ε β} {fault : Option ε} (h : ∀ a, fault? (f a) = fault) :
    fault? (x >>= f) = (fault? x).or fault := by
  cases x with
  | error e => rfl
  | ok a => exact h a

/-- What is done with a result brings no fault of its own. -/
theorem fault?_bind_pure (f : α → β) : fault? (do let a ← x; return f a) = fault? x := by
  cases x <;> rfl

/-- Two results are combined in either order, if the combination does not depend on it. -/
theorem combine_swap {f : α → α → β} (hf : ∀ s t, f s t = f t s) {y : Except ε α} {u : β} :
    (do let s ← x; let t ← y; return f s t) = Except.ok u ↔
      (do let s ← y; let t ← x; return f s t) = Except.ok u := by
  simp only [bind_eq_ok_iff, pure_eq_ok_iff]
  constructor
  · rintro ⟨s, hs, t, ht, rfl⟩
    exact ⟨t, ht, s, hs, hf t s⟩
  · rintro ⟨t, ht, s, hs, rfl⟩
    exact ⟨s, hs, t, ht, hf s t⟩

/-- Three results are combined in one order of operations or the other, from the left to the
right in both. -/
theorem combine_assoc {f : α → α → α} (hf : ∀ s t u, f (f s t) u = f s (f t u))
    {y z : Except ε α} :
    (do let r ← (do let s ← x; let t ← y; return f s t); let u ← z; return f r u) =
      (do let s ← x; let r ← (do let t ← y; let u ← z; return f t u); return f s r) := by
  simp only [bind_assoc, pure_bind, hf]

/-- The first item with a fault, told by what stands before it. -/
theorem findSome?_fault?_eq_some_iff {f : α → Except ε β} {items : List α} :
    items.findSome? (fun a => fault? (f a)) = some e ↔
      ∃ before a after, items = before ++ a :: after ∧ (∀ b ∈ before, ∃ r, f b = .ok r) ∧
        f a = .error e := by
  simp only [List.findSome?_eq_some_iff, fault?_eq_some_iff, fault?_eq_none_iff]
  constructor
  · rintro ⟨before, a, after, hitems, ha, hbefore⟩
    exact ⟨before, a, after, hitems, hbefore, ha⟩
  · rintro ⟨before, a, after, hitems, hbefore, ha⟩
    exact ⟨before, a, after, hitems, ha, hbefore⟩

end Faults

namespace Truth

/-- The sides of a conjunction may be swapped. -/
theorem and_comm (s t : Truth) : s.and t = t.and s := by
  cases s <;> cases t <;> rfl

/-- The sides of a disjunction may be swapped. -/
theorem or_comm (s t : Truth) : s.or t = t.or s := by
  cases s <;> cases t <;> rfl

/-- Conjunctions may be grouped either way. -/
theorem and_assoc (s t u : Truth) : (s.and t).and u = s.and (t.and u) := by
  cases s <;> cases t <;> cases u <;> rfl

/-- Disjunctions may be grouped either way. -/
theorem or_assoc (s t u : Truth) : (s.or t).or u = s.or (t.or u) := by
  cases s <;> cases t <;> cases u <;> rfl

end Truth

namespace Condition

/-- The comparisons of a condition, from left to right. -/
def comparisons : Condition → List Comparison
  | not c => c.comparisons
  | and a b | or a b => a.comparisons ++ b.comparisons
  | holds c => [c]

/-- The same comparisons under the same negations, with operands of conjunctions and
disjunctions swapped or put in other brackets, anywhere in a condition. -/
inductive Rearranged : Condition → Condition → Prop
  | refl (c : Condition) : Rearranged c c
  | symm {c c' : Condition} (h : Rearranged c c') : Rearranged c' c
  | trans {c c' c'' : Condition} (h : Rearranged c c') (h' : Rearranged c' c'') :
      Rearranged c c''
  | andSwap (a b : Condition) : Rearranged (.and a b) (.and b a)
  | orSwap (a b : Condition) : Rearranged (.or a b) (.or b a)
  | andAssoc (a b c : Condition) : Rearranged (.and (.and a b) c) (.and a (.and b c))
  | orAssoc (a b c : Condition) : Rearranged (.or (.or a b) c) (.or a (.or b c))
  | not {c c' : Condition} (h : Rearranged c c') : Rearranged (.not c) (.not c')
  | and {a a' b b' : Condition} (ha : Rearranged a a') (hb : Rearranged b b') :
      Rearranged (.and a b) (.and a' b')
  | or {a a' b b' : Condition} (ha : Rearranged a a') (hb : Rearranged b b') :
      Rearranged (.or a b) (.or a' b')

variable {c c' : Condition} {row : Row} {schema : Schema} {rows : List Row} {e : Error}

/-- On a row a condition has the fault of its leftmost comparison that fails. -/
theorem fault?_evaluate (c : Condition) :
    fault? (c.evaluate row schema) =
      c.comparisons.findSome? fun p => fault? (p.evaluate row schema) := by
  induction c with
  | not c ih => exact (fault?_bind_pure _).trans ih
  | and a b iha ihb =>
    rw [comparisons, List.findSome?_append, ← iha, ← ihb]
    exact fault?_bind fun _ => fault?_bind_pure _
  | or a b iha ihb =>
    rw [comparisons, List.findSome?_append, ← iha, ← ihb]
    exact fault?_bind fun _ => fault?_bind_pure _
  | holds p =>
    rw [comparisons, List.findSome?_singleton]
    rfl

/-- A walk that keeps entries has the fault of the first entry whose test fails. -/
theorem fault?_keep {α : Type} (test : α → Except Error Bool) (entries : List α) :
    fault? (keep test entries) = entries.findSome? fun a => fault? (test a) := by
  induction entries with
  | nil => rfl
  | cons a rest ih =>
    have hwalk : fault? (keep test (a :: rest)) = (fault? (test a)).or (fault? (keep test rest)) :=
      fault?_bind fun _ => fault?_bind_pure _
    rw [hwalk, ih, List.findSome?_cons]
    cases fault? (test a) with
    | none => rfl
    | some e => rfl

/-- On several rows a condition has its fault on the first of them on which it fails. -/
theorem fault?_filter (c : Condition) (rows : List Row) :
    fault? (filter (some c) schema rows) =
      rows.findSome? fun row => fault? (c.evaluate row schema) := by
  have htest (entry : Row × Nat) : fault? (do
      let t ← c.evaluate entry.1 schema
      return decide (t = .yes)) = fault? (c.evaluate entry.1 schema) := fault?_bind_pure _
  calc fault? (filter (some c) schema rows)
      = fault? (matching (some c) schema rows) := fault?_bind_pure _
    _ = rows.zipIdx.findSome? fun entry => fault? (c.evaluate entry.1 schema) := by
      simp only [matching, fault?_keep, htest]
    _ = rows.findSome? fun row => fault? (c.evaluate row schema) := by
      conv_rhs => rw [← List.zipIdx_map_fst 0 rows, List.findSome?_map]
      rfl

/-- A condition has a truth on a row exactly if each of its comparisons has one. -/
theorem exists_evaluate_iff : (∃ truth, c.evaluate row schema = .ok truth) ↔
    ∀ p ∈ c.comparisons, ∃ truth, p.evaluate row schema = .ok truth := by
  rw [← fault?_eq_none_iff, fault?_evaluate, List.findSome?_eq_none_iff]
  simp only [fault?_eq_none_iff]

/-- A condition fails on a row with the error of its leftmost comparison that fails on it. -/
theorem evaluate_eq_error_iff : c.evaluate row schema = .error e ↔
    ∃ left p right, c.comparisons = left ++ p :: right ∧
      (∀ q ∈ left, ∃ truth, q.evaluate row schema = .ok truth) ∧
      p.evaluate row schema = .error e := by
  rw [← fault?_eq_some_iff, fault?_evaluate, findSome?_fault?_eq_some_iff]

/-- A condition finds positions exactly if each of its comparisons has a truth on every row. -/
theorem exists_filter_iff : (∃ positions, filter (some c) schema rows = .ok positions) ↔
    ∀ row ∈ rows, ∀ p ∈ c.comparisons, ∃ truth, p.evaluate row schema = .ok truth := by
  rw [← fault?_eq_none_iff, fault?_filter, List.findSome?_eq_none_iff]
  simp only [fault?_eq_none_iff, exists_evaluate_iff]

/-- A condition fails on some rows with its error on the first of them on which it fails. -/
theorem filter_eq_error_iff : filter (some c) schema rows = .error e ↔
    ∃ before row after, rows = before ++ row :: after ∧
      (∀ r ∈ before, ∃ truth, c.evaluate r schema = .ok truth) ∧
      c.evaluate row schema = .error e := by
  rw [← fault?_eq_some_iff, fault?_filter, findSome?_fault?_eq_some_iff]

/-- A condition that is rearranged has the same truth on every row, where it has any. -/
theorem Rearranged.evaluate_eq_ok_iff (h : c.Rearranged c') {truth : Truth} :
    c.evaluate row schema = .ok truth ↔ c'.evaluate row schema = .ok truth := by
  induction h generalizing truth with
  | refl c => rfl
  | symm _ ih => exact ih.symm
  | trans _ _ ih ih' => exact ih.trans ih'
  | andSwap a b => exact combine_swap Truth.and_comm
  | orSwap a b => exact combine_swap Truth.or_comm
  | andAssoc a b c => simp only [evaluate, combine_assoc Truth.and_assoc]
  | orAssoc a b c => simp only [evaluate, combine_assoc Truth.or_assoc]
  | not _ ih => simp only [evaluate, bind_eq_ok_iff, ih]
  | and _ _ iha ihb => simp only [evaluate, bind_eq_ok_iff, iha, ihb]
  | or _ _ iha ihb => simp only [evaluate, bind_eq_ok_iff, iha, ihb]

/-- Tests that agree wherever they do not fail keep the same entries. -/
theorem keep_eq_ok_congr {α : Type} {test test' : α → Except Error Bool}
    (h : ∀ a holds, test a = .ok holds ↔ test' a = .ok holds) {entries kept : List α} :
    keep test entries = .ok kept ↔ keep test' entries = .ok kept := by
  induction entries generalizing kept with
  | nil => rfl
  | cons a rest ih => simp only [keep, bind_eq_ok_iff, h, ih]

/-- A condition that is rearranged finds the same rows, if it does not fail. -/
theorem Rearranged.filter_eq_ok_iff (h : c.Rearranged c') {positions : List Nat} :
    filter (some c) schema rows = .ok positions ↔
      filter (some c') schema rows = .ok positions := by
  simp only [filter, matching, bind_eq_ok_iff]
  refine exists_congr fun entries => and_congr_left fun _ => keep_eq_ok_congr fun entry holds => ?_
  simp only [bind_eq_ok_iff, h.evaluate_eq_ok_iff]

/-- A condition fails on some rows exactly if a comparison in it fails on one of them, and its
fault is that of the leftmost comparison that fails on the first such row. To rearrange the
condition changes neither whether it fails nor the rows that it finds. -/
theorem filter_leftmost (c : Condition) (schema : Schema) (rows : List Row) :
    ((∃ e, filter (some c) schema rows = .error e) ↔
      ∃ row ∈ rows, ∃ p ∈ c.comparisons, ∃ e, p.evaluate row schema = .error e) ∧
    (∀ e, filter (some c) schema rows = .error e ↔
      ∃ before row after, rows = before ++ row :: after ∧
        (∀ r ∈ before, ∀ p ∈ c.comparisons, ∃ truth, p.evaluate r schema = .ok truth) ∧
        ∃ left p right, c.comparisons = left ++ p :: right ∧
          (∀ q ∈ left, ∃ truth, q.evaluate row schema = .ok truth) ∧
          p.evaluate row schema = .error e) ∧
    ∀ c', c.Rearranged c' →
      ((∃ e, filter (some c) schema rows = .error e) ↔
        ∃ e, filter (some c') schema rows = .error e) ∧
      ∀ positions, filter (some c) schema rows = .ok positions ↔
        filter (some c') schema rows = .ok positions := by
  refine ⟨?_, fun e => ?_, fun c' h => ⟨?_, fun positions => h.filter_eq_ok_iff⟩⟩
  · simp only [exists_error_iff, exists_filter_iff, not_forall, exists_prop]
  · simp only [filter_eq_error_iff, exists_evaluate_iff, evaluate_eq_error_iff]
  · simp only [exists_error_iff, h.filter_eq_ok_iff]

/-- Two columns, of a number and of a text. -/
def sampleColumns : Schema :=
  [.plain "id" .integer 0 true, .plain "name" .char 3 true]

/-- Two rows in these columns. -/
def sampleRows : List Row :=
  [[.integer 1, .char "amy"], [.integer 2, .null]]

/-- A missing column and a text that is compared with a number: whichever of the two faults comes
first is reported. Comparisons that do not fail find the same row in either order. -/
theorem filter_leftmost_sample :
    let missing := columnIs "age" (.integer 1)
    let mixed := columnIs "name" (.integer 1)
    let second := columnIs "id" (.integer 2)
    let amy := columnIs "name" (.char "amy")
    filter (some (and missing mixed)) sampleColumns sampleRows = .error (.whereColumn "age") ∧
      filter (some (and mixed missing)) sampleColumns sampleRows = .error .incomparable ∧
      filter (some (or amy second)) sampleColumns sampleRows = .ok [0, 1] := by
  intro missing mixed second amy
  have hswapped : (or second amy).Rearranged (or amy second) := .orSwap second amy
  have hfinds : filter (some (or second amy)) sampleColumns sampleRows = .ok [0, 1] := by decide
  refine ⟨by decide, ?_, ?_⟩
  · refine ((filter_leftmost (and mixed missing) sampleColumns sampleRows).2.1 _).mpr ?_
    exact ⟨[], _, _, rfl, by simp, [], _, _, rfl, by simp, by decide⟩
  · exact (((filter_leftmost _ sampleColumns sampleRows).2.2 _ hswapped).2 _).mp hfinds

end Condition

end RelationalStore
