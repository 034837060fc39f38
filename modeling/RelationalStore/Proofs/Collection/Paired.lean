import Mathlib.Data.List.Forall2

/-!
# Lists paired item by item

Two lists of the same length are compared position by position when a table is compared
with what has become of it. These lemmas lead from an item of one list to its partner in
the other.
-/

namespace List.Forall₂

variable {α β γ : Type} {R : α → β → Prop} {as : List α} {bs : List β}

/-- Every item of the first list has a partner in the second. -/
theorem exists_right (h : Forall₂ R as bs) {a : α} (ha : a ∈ as) : ∃ b ∈ bs, R a b := by
  induction h with
  | nil => cases ha
  | cons hfirst _ ih =>
    rcases mem_cons.mp ha with rfl | ha
    · exact ⟨_, mem_cons_self, hfirst⟩
    · obtain ⟨b, hb, hR⟩ := ih ha
      exact ⟨b, mem_cons_of_mem _ hb, hR⟩

/-- Every item of the second list has a partner in the first. -/
theorem exists_left (h : Forall₂ R as bs) {b : β} (hb : b ∈ bs) : ∃ a ∈ as, R a b :=
  h.flip.exists_right hb

/-- The item at a position has the one at the same position for a partner. -/
theorem exists_getElem?_right (h : Forall₂ R as bs) {i : Nat} {a : α} (ha : as[i]? = some a) :
    ∃ b, bs[i]? = some b ∧ R a b := by
  obtain ⟨hi, rfl⟩ := getElem?_eq_some_iff.mp ha
  have hi' : i < bs.length := h.length_eq ▸ hi
  exact ⟨bs[i], getElem?_eq_getElem hi', (forall₂_iff_get.mp h).2 i hi hi'⟩

/-- If every item of a list has a partner, these make up a list. -/
theorem exists_of_forall (h : ∀ a ∈ as, ∃ b, R a b) : ∃ bs, Forall₂ R as bs := by
  induction as with
  | nil => exact ⟨[], .nil⟩
  | cons a rest ih =>
    obtain ⟨⟨b, hb⟩, hrest⟩ := forall_mem_cons.mp h
    obtain ⟨bs, hbs⟩ := ih hrest
    exact ⟨b :: bs, .cons hb hbs⟩

/-- A function that gives each item its partner gives all of them. -/
theorem filterMap_eq {f : α → Option β} (h : Forall₂ (fun a b => f a = some b) as bs) :
    as.filterMap f = bs := by
  induction h with
  | nil => rfl
  | cons hfirst _ ih => rw [filterMap_cons_some hfirst, ih]

/-- Partners of partners are related by what leads from one to the next. -/
theorem trans {S : β → γ → Prop} {T : α → γ → Prop} {cs : List γ} (h : Forall₂ R as bs)
    (h' : Forall₂ S bs cs) (hRS : ∀ a b c, R a b → S b c → T a c) : Forall₂ T as cs := by
  induction h generalizing cs with
  | nil =>
    cases h'
    exact .nil
  | cons hfirst _ ih =>
    obtain ⟨c, others, hc, hothers, rfl⟩ := forall₂_cons_left_iff.mp h'
    exact .cons (hRS _ _ c hfirst hc) (ih hothers)

/-- What holds between any two items of the first list passes to those of the second. -/
theorem pairwise {S : α → α → Prop} {T : β → β → Prop} (h : Forall₂ R as bs)
    (hS : as.Pairwise S) (hST : ∀ a a' b b', R a b → R a' b' → S a a' → T b b') :
    bs.Pairwise T := by
  induction h with
  | nil => exact .nil
  | cons hfirst hrest ih =>
    obtain ⟨hbefore, hS⟩ := pairwise_cons.mp hS
    refine pairwise_cons.mpr ⟨fun b' hb' => ?_, ih hS⟩
    obtain ⟨a', ha', hR⟩ := exists_left hrest hb'
    exact hST _ a' _ b' hfirst hR (hbefore a' ha')

/-- What holds of every pair whose first item is in a list holds along the list. -/
theorem imp_mem {S : α → β → Prop} (h : Forall₂ R as bs)
    (hRS : ∀ a ∈ as, ∀ b, R a b → S a b) : Forall₂ S as bs :=
  ((forall₂_and_left as bs).mpr ⟨fun _ ha => ha, h⟩).imp fun a b hab => hRS a hab.1 b hab.2

end List.Forall₂
