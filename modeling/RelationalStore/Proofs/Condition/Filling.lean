import RelationalStore.Proofs.Collection.Paired
import RelationalStore.Proofs.Condition.Faults
import RelationalStore.Proofs.Condition.Leftmost

/-!
# Conditions on rows with more values

A NULL may be a value that is not known yet. A condition that does not ask which values are
NULL is true or false of a row only because of the values that are there, and so it stays true
or false whatever is filled in for the others. The one thing that can go wrong then is that a
new value has another type than the one it is compared with.
-/

namespace RelationalStore

/-- The second value is the first, or stands where the first was NULL. -/
def Value.FilledBy (v v' : Value) : Prop :=
  v = .null ∨ v = v'

/-- The second row is the first with some of its NULLs filled in. -/
def Row.FilledBy (row row' : Row) : Prop :=
  List.Forall₂ Value.FilledBy row row'

/-- The second truth is the first, or decides what the first left open. -/
def Truth.SettledBy (t t' : Truth) : Prop :=
  t = .unknown ∨ t = t'

namespace Truth.SettledBy

variable {s s' t t' : Truth}

/-- A negation is decided together with what it negates. -/
theorem not (h : t.SettledBy t') : t.not.SettledBy t'.not := by
  rcases h with rfl | rfl
  · exact .inl rfl
  · exact .inr rfl

/-- A conjunction is decided by one side that is false, whatever the other turns out to be. -/
theorem and (hs : s.SettledBy s') (ht : t.SettledBy t') : (s.and t).SettledBy (s'.and t') := by
  rcases hs with rfl | rfl
  · rcases ht with rfl | rfl
    · exact .inl rfl
    · cases t with
      | no => exact .inr (by cases s' <;> rfl)
      | unknown => exact .inl rfl
      | yes => exact .inl rfl
  · rcases ht with rfl | rfl
    · cases s with
      | no => exact .inr (by cases t' <;> rfl)
      | unknown => exact .inl rfl
      | yes => exact .inl rfl
    · exact .inr rfl

/-- A disjunction is a conjunction with all truths turned round. -/
theorem or (hs : s.SettledBy s') (ht : t.SettledBy t') : (s.or t).SettledBy (s'.or t') := by
  have hor (x y : Truth) : x.or y = (x.not.and y.not).not := by
    cases x <;> cases y <;> rfl
  rw [hor, hor]
  exact (hs.not.and ht.not).not

end Truth.SettledBy

/-- A comparison of values that are there says the same of them ever after. -/
theorem Value.weigh_filled {accepts : Ordering → Bool} {v v' w w' : Value} {t t' : Truth}
    (hv : v.FilledBy v') (hw : w.FilledBy w') (ht : v.weigh accepts w = .ok t)
    (ht' : v'.weigh accepts w' = .ok t') : t.SettledBy t' := by
  rcases hv with rfl | rfl
  · exact .inl (Except.ok.inj ht).symm
  · rcases hw with rfl | rfl
    · have hunknown : v.weigh accepts .null = .ok .unknown := by cases v <;> rfl
      exact .inl (Except.ok.inj (hunknown.symm.trans ht)).symm
    · exact .inr (Except.ok.inj (ht.symm.trans ht'))

section

variable {row row' : Row} {schema : Schema} (hfilled : row.FilledBy row')

include hfilled

/-- An operand that has a value in a row still has one when NULLs are filled in. -/
theorem Operand.exists_value_filled {operand : Operand} {v : Value}
    (hv : operand.value row schema = .ok v) :
    ∃ v', operand.value row' schema = .ok v' ∧ v.FilledBy v' := by
  cases operand with
  | const w => exact ⟨w, rfl, .inr (Except.ok.inj hv).symm⟩
  | column table name =>
    obtain ⟨i, hi, hcell⟩ := Schema.value_column_eq_ok_iff.mp hv
    obtain ⟨v', hcell', hvalue⟩ := hfilled.exists_getElem?_right hcell
    exact ⟨v', Schema.value_column_eq_ok_iff.mpr ⟨i, hi, hcell'⟩, hvalue⟩

namespace Comparison

variable {p : Comparison} {t t' : Truth} (hbinary : p.comparator.isUnary = false)
  (ht : p.evaluate row schema = .ok t)

include hbinary ht

/-- A comparison of two operands that has a truth on a row finds both operands in the row, and
also in the one that is filled. -/
theorem exists_values_filled : ∃ v w v' w' : Value,
    v.weigh p.comparator.accepts w = .ok t ∧ v.FilledBy v' ∧ w.FilledBy w' ∧
      p.left.value row' schema = .ok v' ∧ p.right.value row' schema = .ok w' := by
  rw [evaluate_of_binary hbinary] at ht
  obtain ⟨v, hv, ht⟩ := bind_eq_ok_iff.mp ht
  obtain ⟨w, hw, hweigh⟩ := bind_eq_ok_iff.mp ht
  obtain ⟨v', hv', hvv'⟩ := Operand.exists_value_filled hfilled hv
  obtain ⟨w', hw', hww'⟩ := Operand.exists_value_filled hfilled hw
  exact ⟨v, w, v', w', hweigh, hvv', hww', hv', hw'⟩

/-- What a comparison leaves open on a row may be decided when NULLs are filled in; what it does
not leave open stays. -/
theorem settledBy_of_filled (ht' : p.evaluate row' schema = .ok t') : t.SettledBy t' := by
  obtain ⟨v, w, v', w', hweigh, hvv', hww', hv', hw'⟩ := exists_values_filled hfilled hbinary ht
  have hweigh' : v'.weigh p.comparator.accepts w' = .ok t' := by
    simpa only [evaluate_of_binary hbinary, hv', hw', bind, Except.bind] using ht'
  exact Value.weigh_filled hvv' hww' hweigh hweigh'

/-- A comparison that has a truth on a row can go wrong on the one that is filled only because
of a value of another type. -/
theorem failsOnly_of_filled :
    FailsOnly (fun e => e = .incomparable) (p.evaluate row' schema) := by
  obtain ⟨_, _, v', w', _, _, _, hv', hw'⟩ := exists_values_filled hfilled hbinary ht
  exact evaluate_failsOnly (.of_exists_ok ⟨v', hv'⟩) (.of_exists_ok ⟨w', hw'⟩)
    fun _ _ _ _ _ => rfl

end Comparison

end

namespace Condition

variable {c : Condition} {row row' : Row} {schema : Schema} {t t' : Truth}

/-- What a condition leaves open on a row may be decided when NULLs are filled in; what it does
not leave open stays. -/
theorem settledBy_of_filled (hfilled : row.FilledBy row')
    (hbinary : ∀ p ∈ c.comparisons, p.comparator.isUnary = false)
    (ht : c.evaluate row schema = .ok t) (ht' : c.evaluate row' schema = .ok t') :
    t.SettledBy t' := by
  induction c generalizing t t' with
  | not c ih =>
    simp only [evaluate, bind_eq_ok_iff, pure_eq_ok_iff] at ht ht'
    obtain ⟨s, hs, rfl⟩ := ht
    obtain ⟨s', hs', rfl⟩ := ht'
    exact (ih hbinary hs hs').not
  | and a b iha ihb =>
    obtain ⟨hbinarya, hbinaryb⟩ := List.forall_mem_append.mp hbinary
    simp only [evaluate, bind_eq_ok_iff, pure_eq_ok_iff] at ht ht'
    obtain ⟨s, hs, u, hu, rfl⟩ := ht
    obtain ⟨s', hs', u', hu', rfl⟩ := ht'
    exact (iha hbinarya hs hs').and (ihb hbinaryb hu hu')
  | or a b iha ihb =>
    obtain ⟨hbinarya, hbinaryb⟩ := List.forall_mem_append.mp hbinary
    simp only [evaluate, bind_eq_ok_iff, pure_eq_ok_iff] at ht ht'
    obtain ⟨s, hs, u, hu, rfl⟩ := ht
    obtain ⟨s', hs', u', hu', rfl⟩ := ht'
    exact (iha hbinarya hs hs').or (ihb hbinaryb hu hu')
  | holds p => exact p.settledBy_of_filled hfilled (hbinary p List.mem_cons_self) ht ht'

/-- A condition that has a truth on a row fails on a row that is filled only because a new value
has another type than the one it is compared with. -/
theorem failsOnly_of_filled (hfilled : row.FilledBy row')
    (hbinary : ∀ p ∈ c.comparisons, p.comparator.isUnary = false)
    (ht : c.evaluate row schema = .ok t) :
    FailsOnly (fun e => e = .incomparable) (c.evaluate row' schema) := by
  intro e he
  -- the comparison that brings the fault had a truth on the row that was not filled
  obtain ⟨left, p, right, hsplit, _, hp⟩ := evaluate_eq_error_iff.mp he
  have hmem : p ∈ c.comparisons := hsplit ▸ List.mem_append_right _ List.mem_cons_self
  obtain ⟨s, hs⟩ := exists_evaluate_iff.mp ⟨t, ht⟩ p hmem
  exact Comparison.failsOnly_of_filled hfilled (hbinary p hmem) hs e hp

/-- A condition that does not ask which values are NULL, and that is true or false of a row, is
so of every row in which other values are filled in for NULLs, unless it fails there. It can
fail there only because values of different types are compared. -/
theorem definite_of_filled (hbinary : ∀ p ∈ c.comparisons, p.comparator.isUnary = false)
    (hfilled : row.FilledBy row') (ht : c.evaluate row schema = .ok t) (hdefinite : t ≠ .unknown) :
    (∀ t', c.evaluate row' schema = .ok t' → t' = t) ∧
      ∀ e, c.evaluate row' schema = .error e → e = .incomparable := by
  refine ⟨fun t' ht' => ?_, failsOnly_of_filled hfilled hbinary ht⟩
  rcases settledBy_of_filled hfilled hbinary ht ht' with hunknown | hsame
  · exact absurd hunknown hdefinite
  · exact hsame.symm

/-- A negated disjunction is false of a row with a NULL because of the other value, and stays so
when the NULL is replaced by a text. When it is replaced by a number, the condition fails. -/
theorem definite_of_filled_sample :
    let c := not (or (columnIs "id" (.integer 1)) (columnIs "name" (.char "amy")))
    c.evaluate [.integer 1, .null] sampleColumns = .ok .no ∧
      c.evaluate [.integer 1, .char "bob"] sampleColumns = .ok .no ∧
      c.evaluate [.integer 1, .integer 2] sampleColumns = .error .incomparable := by
  intro c
  have hbinary : ∀ p ∈ c.comparisons, p.comparator.isUnary = false := by decide
  have hdefinite : c.evaluate [.integer 1, .null] sampleColumns = .ok .no := by decide
  have hfilled : Row.FilledBy [.integer 1, .null] [.integer 1, .char "bob"] :=
    .cons (.inr rfl) (.cons (.inl rfl) .nil)
  refine ⟨hdefinite, ?_, by decide⟩
  obtain ⟨t', ht'⟩ : ∃ t', c.evaluate [.integer 1, .char "bob"] sampleColumns = .ok t' :=
    ⟨.no, by decide⟩
  have hsame := (definite_of_filled hbinary hfilled hdefinite (by decide)).1 t' ht'
  rw [ht', hsame]

end Condition

end RelationalStore
