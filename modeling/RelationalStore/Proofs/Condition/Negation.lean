import Mathlib.Logic.Relation
import RelationalStore.Proofs.Condition.Equality

/-!
# Conditions without negation

Each comparator has a complement: it is true where the comparator is false, and unknown or at
fault where the comparator is. A negation can therefore be moved towards the comparisons until
it disappears in one of them, by steps each of which keeps what the condition says of every
row, its faults included. The steps always end in the same condition, in whichever order they
are taken.
-/

namespace RelationalStore

open Relation (ReflTransGen)

namespace Truth

/-- Two truths that are decided are each the negation of the other. -/
theorem not_ofBool (b : Bool) : (ofBool b).not = ofBool (!b) := by
  cases b <;> rfl

/-- A negation of a negation says the same. -/
theorem not_not (s : Truth) : s.not.not = s := by
  cases s <;> rfl

/-- A negated conjunction is the disjunction of the negated sides. -/
theorem not_and (s t : Truth) : (s.and t).not = s.not.or t.not := by
  cases s <;> cases t <;> rfl

/-- A negated disjunction is the conjunction of the negated sides. -/
theorem not_or (s t : Truth) : (s.or t).not = s.not.and t.not := by
  cases s <;> cases t <;> rfl

end Truth

namespace Comparator

/-- The comparator that is true exactly where the given one is false. -/
def complement : Comparator → Comparator
  | eq => notEq
  | notEq => eq
  | greater => lessEq
  | greaterEq => less
  | less => greaterEq
  | lessEq => greater
  | isNull => isNotNull
  | isNotNull => isNull

variable {comparator : Comparator}

/-- A comparator and its complement take as many operands. -/
theorem isUnary_complement (comparator : Comparator) :
    comparator.complement.isUnary = comparator.isUnary := by
  cases comparator <;> rfl

/-- The complement of a comparator of two operands accepts the orders that this one does not. -/
theorem accepts_complement (hbinary : comparator.isUnary = false) (order : Ordering) :
    comparator.complement.accepts order = !comparator.accepts order := by
  cases comparator with
  | isNull => cases hbinary
  | isNotNull => cases hbinary
  | _ => cases order <;> rfl

end Comparator

/-- Accepting the other orders gives the opposite truth, and the same fault. -/
theorem Value.weigh_not (accepts : Ordering → Bool) (v w : Value) :
    v.weigh (fun order => !accepts order) w = Truth.not <$> v.weigh accepts w := by
  unfold weigh
  split
  · split
    · rfl
    · simp [Truth.not_ofBool]
  · rfl

namespace Comparison

variable {row : Row} {schema : Schema}

/-- The comparison of the same operands by the complement. -/
def complement (c : Comparison) : Comparison :=
  { c with comparator := c.comparator.complement }

/-- The complement of the complement of a comparison is the comparison. -/
theorem complement_complement (c : Comparison) : c.complement.complement = c := by
  obtain ⟨comparator, left, right⟩ := c
  cases comparator <;> rfl

/-- The complement of a comparison fails as the comparison does, and has otherwise the opposite
truth. -/
theorem evaluate_complement (c : Comparison) :
    c.complement.evaluate row schema = Truth.not <$> c.evaluate row schema := by
  cases hunary : c.comparator.isUnary with
  | true =>
    obtain ⟨comparator, left, right⟩ := c
    cases comparator with
    | isNull => simp [evaluate, complement, Comparator.complement, Truth.not_ofBool]
    | isNotNull => simp [evaluate, complement, Comparator.complement, Truth.not_ofBool]
    | _ => cases hunary
  | false =>
    have hunary' : c.complement.comparator.isUnary = false :=
      (Comparator.isUnary_complement _).trans hunary
    have haccepts : c.complement.comparator.accepts = fun order => !c.comparator.accepts order :=
      funext (Comparator.accepts_complement hunary)
    simp only [evaluate_of_binary hunary, evaluate_of_binary hunary', haccepts, Value.weigh_not,
      map_bind]
    rfl

end Comparison

namespace Condition

/-- One step by which a negation comes closer to the comparisons, anywhere in a condition. -/
inductive Pushes : Condition → Condition → Prop
  | notNot (c : Condition) : Pushes (.not (.not c)) c
  | notAnd (a b : Condition) : Pushes (.not (.and a b)) (.or (.not a) (.not b))
  | notOr (a b : Condition) : Pushes (.not (.or a b)) (.and (.not a) (.not b))
  | notHolds (c : Comparison) : Pushes (.not (.holds c)) (.holds c.complement)
  | inNot {c c' : Condition} (h : Pushes c c') : Pushes (.not c) (.not c')
  | inAndLeft {a a' : Condition} (b : Condition) (h : Pushes a a') :
      Pushes (.and a b) (.and a' b)
  | inAndRight (a : Condition) {b b' : Condition} (h : Pushes b b') :
      Pushes (.and a b) (.and a b')
  | inOrLeft {a a' : Condition} (b : Condition) (h : Pushes a a') : Pushes (.or a b) (.or a' b)
  | inOrRight (a : Condition) {b b' : Condition} (h : Pushes b b') : Pushes (.or a b) (.or a b')

/-- Whether there is no negation in the condition. -/
def negationFree : Condition → Bool
  | not _ => false
  | and a b | or a b => a.negationFree && b.negationFree
  | holds _ => true

/-- The condition, or else its negation, with all negations moved into the comparisons. -/
def signed : (positive : Bool) → Condition → Condition
  | positive, not c => c.signed !positive
  | true, and a b => and (a.signed true) (b.signed true)
  | false, and a b => or (a.signed false) (b.signed false)
  | true, or a b => or (a.signed true) (b.signed true)
  | false, or a b => and (a.signed false) (b.signed false)
  | true, holds c => holds c
  | false, holds c => holds c.complement

/-- The condition with all negations moved into the comparisons. -/
def negationNormal (c : Condition) : Condition :=
  c.signed true

variable {c c' : Condition} {row : Row} {schema : Schema}

/-- A negation has the opposite truth, or fails as what it negates does. -/
theorem evaluate_not (c : Condition) :
    (not c).evaluate row schema = Truth.not <$> c.evaluate row schema := by
  simp [evaluate]

/-- A negation that is moved by one step does not change what the condition says. -/
theorem Pushes.evaluate_eq (h : c.Pushes c') :
    c'.evaluate row schema = c.evaluate row schema := by
  induction h with
  | notNot c => simp [evaluate_not, Truth.not_not]
  | notAnd a b => simp [evaluate, Truth.not_and]
  | notOr a b => simp [evaluate, Truth.not_or]
  | notHolds c =>
    rw [evaluate_not]
    exact c.evaluate_complement
  | inNot _ ih => simp only [evaluate, ih]
  | inAndLeft _ _ ih => simp only [evaluate, ih]
  | inAndRight _ _ ih => simp only [evaluate, ih]
  | inOrLeft _ _ ih => simp only [evaluate, ih]
  | inOrRight _ _ ih => simp only [evaluate, ih]

/-- Nor do any number of steps. -/
theorem evaluate_eq_of_pushes (h : ReflTransGen Pushes c c') :
    c'.evaluate row schema = c.evaluate row schema := by
  induction h with
  | refl => rfl
  | tail _ hstep ih => exact hstep.evaluate_eq.trans ih

/-- The parts of a conjunction can be worked on one after the other. -/
theorem pushes_and {a a' b b' : Condition} (ha : ReflTransGen Pushes a a')
    (hb : ReflTransGen Pushes b b') : ReflTransGen Pushes (and a b) (and a' b') := by
  have hleft : ReflTransGen Pushes (and a b) (and a' b) :=
    ha.lift (fun x => and x b) fun _ _ h => Pushes.inAndLeft b h
  have hright : ReflTransGen Pushes (and a' b) (and a' b') :=
    hb.lift (fun x => and a' x) fun _ _ h => Pushes.inAndRight a' h
  exact hleft.trans hright

/-- Negations are pushed into both sides of a disjunction. -/
theorem pushes_or {a a' b b' : Condition} (ha : ReflTransGen Pushes a a')
    (hb : ReflTransGen Pushes b b') : ReflTransGen Pushes (or a b) (or a' b') := by
  have hleft : ReflTransGen Pushes (or a b) (or a' b) :=
    ha.lift (fun x => or x b) fun _ _ h => Pushes.inOrLeft b h
  have hright : ReflTransGen Pushes (or a' b) (or a' b') :=
    hb.lift (fun x => or a' x) fun _ _ h => Pushes.inOrRight a' h
  exact hleft.trans hright

/-- The steps lead from a condition to its form without negation, and from its negation to the
form of that. -/
theorem pushes_signed (c : Condition) :
    ReflTransGen Pushes c (c.signed true) ∧ ReflTransGen Pushes (.not c) (c.signed false) := by
  induction c with
  | not c ih => exact ⟨ih.2, .head (.notNot c) ih.1⟩
  | and a b iha ihb => exact ⟨pushes_and iha.1 ihb.1, .head (.notAnd a b) (pushes_or iha.2 ihb.2)⟩
  | or a b iha ihb => exact ⟨pushes_or iha.1 ihb.1, .head (.notOr a b) (pushes_and iha.2 ihb.2)⟩
  | holds c => exact ⟨.refl, .single (.notHolds c)⟩

/-- No negation is left once the sign has been carried down to the comparisons. -/
theorem negationFree_signed (positive : Bool) (c : Condition) :
    (c.signed positive).negationFree = true := by
  induction c generalizing positive with
  | not c ih => exact ih _
  | and a b iha ihb => cases positive <;> simp [signed, negationFree, iha, ihb]
  | or a b iha ihb => cases positive <;> simp [signed, negationFree, iha, ihb]
  | holds c => cases positive <;> rfl

/-- A condition without negation is as it is to be. -/
theorem negationNormal_of_negationFree (h : c.negationFree = true) : c.negationNormal = c := by
  induction c with
  | not c => cases h
  | and a b iha ihb =>
    obtain ⟨ha, hb⟩ := Bool.and_eq_true_iff.mp h
    exact congrArg₂ Condition.and (iha ha) (ihb hb)
  | or a b iha ihb =>
    obtain ⟨ha, hb⟩ := Bool.and_eq_true_iff.mp h
    exact congrArg₂ Condition.or (iha ha) (ihb hb)
  | holds c => rfl

/-- No step changes the form that is reached in the end. -/
theorem Pushes.signed_eq (h : c.Pushes c') (positive : Bool) :
    c'.signed positive = c.signed positive := by
  induction h generalizing positive with
  | notNot c => simp [signed]
  | notAnd a b => cases positive <;> rfl
  | notOr a b => cases positive <;> rfl
  | notHolds c => cases positive <;> simp [signed, Comparison.complement_complement]
  | inNot _ ih => exact ih _
  | inAndLeft _ _ ih => cases positive <;> simp only [signed, ih]
  | inAndRight _ _ ih => cases positive <;> simp only [signed, ih]
  | inOrLeft _ _ ih => cases positive <;> simp only [signed, ih]
  | inOrRight _ _ ih => cases positive <;> simp only [signed, ih]

/-- Pushing negations inward does not change the normal form. -/
theorem negationNormal_eq_of_pushes (h : ReflTransGen Pushes c c') :
    c'.negationNormal = c.negationNormal := by
  induction h with
  | refl => rfl
  | tail _ hstep ih => exact (hstep.signed_eq true).trans ih

/-- Moving negations towards the comparisons leads to one condition without negation and to no
other, and this one has on every row the truth of the condition it has been made of, or fails
with the same fault. -/
theorem negationNormal_exact (c : Condition) :
    (∀ c', ReflTransGen Pushes c c' ∧ c'.negationFree = true ↔ c' = c.negationNormal) ∧
      ∀ (row : Row) (schema : Schema),
        c.negationNormal.evaluate row schema = c.evaluate row schema := by
  have hreached : ReflTransGen Pushes c c.negationNormal := (pushes_signed c).1
  refine ⟨fun c' => ⟨?_, ?_⟩, fun row schema => evaluate_eq_of_pushes hreached⟩
  · rintro ⟨hsteps, hfree⟩
    rw [← negationNormal_eq_of_pushes hsteps, negationNormal_of_negationFree hfree]
  · rintro rfl
    exact ⟨hreached, negationFree_signed true c⟩

end Condition

end RelationalStore
