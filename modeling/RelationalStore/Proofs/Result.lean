import Mathlib.Data.List.Forall2
import RelationalStore.Error

/-!
# Operations that succeed

An operation that is put together from others succeeds exactly when its parts do. The
lemmas here take a success apart into those of the parts, so that no later proof has
to open the way in which operations are put together.
-/

namespace RelationalStore

variable {ε α β : Type}

/-- A sequence of two operations succeeds with what the second one makes of the first. -/
theorem bind_eq_ok_iff {x : Except ε α} {f : α → Except ε β} {b : β} :
    x >>= f = .ok b ↔ ∃ a, x = .ok a ∧ f a = .ok b := by
  cases x with
  | error e => simp [bind, Except.bind]
  | ok a => simp [bind, Except.bind]

/-- A sequence of two operations fails with what one of them fails with, the second one only
after a success of the first. -/
theorem bind_eq_error_iff {x : Except ε α} {f : α → Except ε β} {e : ε} :
    x >>= f = .error e ↔ x = .error e ∨ ∃ a, x = .ok a ∧ f a = .error e := by
  cases x with
  | error e' => simp [bind, Except.bind]
  | ok a => simp [bind, Except.bind]

/-- A constant result is the one that it is made of. -/
@[simp] theorem pure_eq_ok_iff {a b : α} : (pure a : Except ε α) = .ok b ↔ a = b := by
  simp [pure, Except.pure]

/-- What is lifted succeeds exactly if it did before, and with the same result. -/
@[simp] theorem Failure.lift_eq_ok_iff {x : Except Error α} {a : α} :
    Failure.lift x = .ok a ↔ x = .ok a := by
  cases x <;> simp

/-- What is lifted reports an error exactly if it failed with this error before. -/
@[simp] theorem Failure.lift_eq_error_iff {x : Except Error α} {e : Error} :
    Failure.lift x = .error (.error e) ↔ x = .error e := by
  cases x <;> simp

/-- A result that is turned into an option is there exactly if the operation has succeeded. -/
theorem toOption_eq_some_iff {x : Except ε α} {a : α} : x.toOption = some a ↔ x = .ok a := by
  cases x with
  | error e => simp [Except.toOption]
  | ok b => simp [Except.toOption]

/-- An operation on every item succeeds with the results of the items, in their order. -/
theorem mapM_eq_ok_iff {f : α → Except ε β} {items : List α} {results : List β} :
    items.mapM f = .ok results ↔ List.Forall₂ (fun a b => f a = .ok b) items results := by
  induction items generalizing results with
  | nil => simp [pure, Except.pure, eq_comm]
  | cons a rest ih =>
    simp only [List.mapM_cons, bind_eq_ok_iff, pure_eq_ok_iff, ih, List.forall₂_cons_left_iff]
    constructor
    · rintro ⟨b, hb, others, hothers, rfl⟩
      exact ⟨b, others, hb, hothers, rfl⟩
    · rintro ⟨b, others, hb, hothers, rfl⟩
      exact ⟨b, hb, others, hothers, rfl⟩

/-- What every step of a walk along a list keeps, the whole walk keeps. -/
theorem foldlM_preserves {P : β → Prop} {f : β → α → Except ε β} {items : List α} {b b' : β}
    (hstep : ∀ a ∈ items, ∀ s s', P s → f s a = .ok s' → P s') (hb : P b)
    (hwalk : items.foldlM f b = .ok b') : P b' := by
  induction items generalizing b with
  | nil =>
    simp only [List.foldlM_nil, pure_eq_ok_iff] at hwalk
    exact hwalk ▸ hb
  | cons a rest ih =>
    obtain ⟨s, hs, hrest⟩ := bind_eq_ok_iff.mp (by simpa only [List.foldlM_cons] using hwalk)
    exact ih (fun c hc => hstep c (List.mem_cons_of_mem _ hc))
      (hstep a List.mem_cons_self b s hb hs) hrest

/-- A walk along a list succeeds if every step from a state with a property succeeds and keeps
it. -/
theorem exists_foldlM {P : β → Prop} {f : β → α → Except ε β} {items : List α} {b : β}
    (hstep : ∀ a ∈ items, ∀ s, P s → ∃ s', f s a = .ok s' ∧ P s') (hb : P b) :
    ∃ b', items.foldlM f b = .ok b' ∧ P b' := by
  induction items generalizing b with
  | nil => exact ⟨b, rfl, hb⟩
  | cons a rest ih =>
    obtain ⟨s, hs, hPs⟩ := hstep a List.mem_cons_self b hb
    obtain ⟨b', hrest, hPb'⟩ := ih (fun c hc => hstep c (List.mem_cons_of_mem _ hc)) hPs
    refine ⟨b', ?_, hPb'⟩
    rw [List.foldlM_cons, hs]
    exact hrest

end RelationalStore
