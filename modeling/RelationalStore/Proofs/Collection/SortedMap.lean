import Mathlib.Data.List.Forall2
import RelationalStore.Collection.SortedMap

/-!
# What keys are bound to

Binding and unbinding a key changes what is found under that key and nothing else. The
order in which the entries are kept plays no part in this. Two maps that bind the same
keys to related values stay so when the same keys are bound and unbound in both.
-/

namespace RelationalStore

namespace SortedMap

variable {κ α : Type} [Ord κ] {m : SortedMap κ α} {k k' : κ} {a : α}

/-- The empty map binds no key. -/
@[simp] theorem get?_empty : (empty : SortedMap κ α).get? k = none := rfl

/-- What a key is bound to stands in an entry. -/
theorem exists_entry_of_get? (h : m.get? k = some a) : ∃ e ∈ m.entries, e.2 = a := by
  obtain ⟨entries, hascending⟩ := m
  simp only [get?] at h ⊢
  clear hascending
  induction entries with
  | nil => cases h
  | cons e rest ih =>
    unfold lookup at h
    split at h
    · exact ⟨e, List.mem_cons_self, Option.some.inj h⟩
    · obtain ⟨e', he', ha⟩ := ih h
      exact ⟨e', List.mem_cons_of_mem _ he', ha⟩

/-- Each entry tells what its key is bound to. -/
theorem get?_of_mem [Std.TransOrd κ] [Std.ReflOrd κ] {e : κ × α} (h : e ∈ m.entries) :
    m.get? e.1 = some e.2 := by
  obtain ⟨entries, hascending⟩ := m
  simp only [get?] at h ⊢
  induction entries with
  | nil => cases h
  | cons first rest ih =>
    obtain ⟨hfirst, hrest⟩ := List.pairwise_cons.mp hascending
    rcases List.mem_cons.mp h with rfl | hmem
    · simp [lookup, Std.ReflCmp.compare_self]
    · have hgt : compare e.1 first.1 = .gt := Std.OrientedCmp.gt_of_lt (hfirst e hmem)
      rw [lookup, hgt]
      exact ih hrest hmem

/-- Maps that have the same entries are the same. -/
theorem eq_of_entries_eq {m' : SortedMap κ α} (h : m.entries = m'.entries) : m = m' := by
  cases m
  cases m'
  simpa using h

/-- A key above all others is bound at the end. -/
theorem insertEntry_of_lt [Std.TransOrd κ] {entries : List (κ × α)}
    (h : ∀ e ∈ entries, compare e.1 k = .lt) : insertEntry k a entries = entries ++ [(k, a)] := by
  induction entries with
  | nil => rfl
  | cons e rest ih =>
    obtain ⟨he, hrest⟩ := List.forall_mem_cons.mp h
    have hgt : compare k e.1 = .gt := Std.OrientedCmp.gt_of_lt he
    rw [insertEntry, hgt, ih hrest, List.cons_append]

section Paired

variable {β : Type} {R S : κ → α → β → Prop} {n : SortedMap κ β} {b : β}

/-- The two maps bind the same keys, each to values that are related. -/
def Paired (R : κ → α → β → Prop) (m : SortedMap κ α) (n : SortedMap κ β) : Prop :=
  List.Forall₂ (fun e e' => e.1 = e'.1 ∧ R e.1 e.2 e'.2) m.entries n.entries

/-- Empty maps are paired. -/
theorem paired_empty : (empty : SortedMap κ α).Paired R empty := .nil

/-- Maps stay paired when the relation between the values is weakened. -/
theorem Paired.mono (h : m.Paired R n) (hRS : ∀ k a b, R k a b → S k a b) : m.Paired S n :=
  h.imp fun _ _ hentry => ⟨hentry.1, hRS _ _ _ hentry.2⟩

/-- The entries of paired maps that are picked by their keys are paired. -/
theorem Paired.filter (h : m.Paired R n) (p : κ → Bool) :
    List.Forall₂ (fun e e' => e.1 = e'.1 ∧ R e.1 e.2 e'.2)
      (m.entries.filter fun e => p e.1) (n.entries.filter fun e => p e.1) := by
  unfold Paired at h
  generalize m.entries = l at h ⊢
  generalize n.entries = l' at h ⊢
  induction h with
  | nil => exact .nil
  | @cons e e' _ _ hfirst _ ih =>
    cases hp : p e.1 with
    | true =>
      have hp' : p e'.1 = true := hfirst.1 ▸ hp
      simp only [List.filter_cons, hp, hp', if_true]
      exact .cons hfirst ih
    | false =>
      have hp' : p e'.1 = false := hfirst.1 ▸ hp
      simp only [List.filter_cons, hp, hp', Bool.false_eq_true, if_false]
      exact ih

/-- Unbinding a key in both of two paired maps leaves them paired. -/
theorem Paired.erase (h : m.Paired R n) (k : κ) : (m.erase k).Paired R (n.erase k) :=
  h.filter fun k' => compare k k' != .eq

/-- Paired maps bind as many keys. -/
theorem Paired.size_eq (h : m.Paired R n) : m.size = n.size :=
  h.length_eq

/-- In paired maps a key is bound in both, to related values, or in neither. -/
theorem Paired.get? (h : m.Paired R n) (k : κ) :
    (m.get? k = none ∧ n.get? k = none) ∨
      ∃ k' a b, compare k k' = .eq ∧ m.get? k = some a ∧ n.get? k = some b ∧ R k' a b := by
  unfold Paired at h
  unfold SortedMap.get?
  generalize m.entries = l at h ⊢
  generalize n.entries = l' at h ⊢
  induction h with
  | nil => exact .inl ⟨rfl, rfl⟩
  | @cons e e' _ _ hfirst _ ih =>
    obtain ⟨hkey, hR⟩ := hfirst
    by_cases hk : compare k e.1 = .eq
    · have hk' : compare k e'.1 = .eq := hkey ▸ hk
      exact .inr ⟨e.1, e.2, e'.2, hk, by simp [lookup, hk], by simp [lookup, hk'], hR⟩
    · have hk' : compare k e'.1 ≠ .eq := hkey ▸ hk
      simpa only [lookup, hk, hk', if_false] using ih

/-- Paired maps bind the same keys. -/
theorem Paired.contains_eq (h : m.Paired R n) (k : κ) : m.contains k = n.contains k := by
  rcases h.get? k with ⟨hm, hn⟩ | ⟨_, a, b, _, hm, hn, _⟩
  · rw [contains, contains, hm, hn, Option.isSome_none, Option.isSome_none]
  · rw [contains, contains, hm, hn, Option.isSome_some, Option.isSome_some]

/-- Related values are bound in both maps at the same place. -/
theorem Paired.insert [Std.TransOrd κ] [Std.LawfulEqOrd κ] (h : m.Paired R n) (hR : R k a b) :
    (m.insert k a).Paired R (n.insert k b) := by
  have hentries : ∀ {l : List (κ × α)} {l' : List (κ × β)},
      List.Forall₂ (fun e e' => e.1 = e'.1 ∧ R e.1 e.2 e'.2) l l' →
        List.Forall₂ (fun e e' => e.1 = e'.1 ∧ R e.1 e.2 e'.2)
          (insertEntry k a l) (insertEntry k b l') := by
    intro l l' hl
    induction hl with
    | nil => exact .cons ⟨rfl, hR⟩ .nil
    | @cons e e' _ _ hfirst hrest ih =>
      have hsame : compare k e'.1 = compare k e.1 := by rw [hfirst.1]
      unfold insertEntry
      rw [hsame]
      cases compare k e.1 with
      | lt => exact .cons ⟨rfl, hR⟩ (.cons hfirst hrest)
      | eq => exact .cons ⟨rfl, hR⟩ hrest
      | gt => exact .cons hfirst ih
  exact hentries h

end Paired

variable [Std.LawfulEqOrd κ]

/-- Entries that are ascending have different keys. -/
theorem nodup_keys : m.keys.Nodup := by
  refine List.pairwise_map.mpr (m.ascending.imp fun {e e'} hlt heq => ?_)
  have hrefl : compare e'.1 e'.1 = .eq := Std.ReflCmp.compare_self
  rw [heq, hrefl] at hlt
  cases hlt

/-- Entries that are inserted in ascending order, all above those that are there, are put at the
end. -/
theorem entries_foldl_insert [Std.TransOrd κ] {entries : List (κ × α)}
    (h : (m.entries ++ entries).Pairwise fun a b => compare a.1 b.1 = .lt) :
    (entries.foldl (fun m e => m.insert e.1 e.2) m).entries = m.entries ++ entries := by
  induction entries generalizing m with
  | nil => simp
  | cons e rest ih =>
    have hbelow : ∀ e' ∈ m.entries, compare e'.1 e.1 = .lt :=
      fun e' he' => (List.pairwise_append.mp h).2.2 e' he' e List.mem_cons_self
    have hinsert : (m.insert e.1 e.2).entries = m.entries ++ [e] := insertEntry_of_lt hbelow
    have hsplit : m.entries ++ e :: rest = (m.insert e.1 e.2).entries ++ rest := by
      simp [hinsert]
    rw [List.foldl_cons, hsplit]
    exact ih (hsplit ▸ h)

/-- A map is made of its entries. -/
theorem ofList_entries [Std.TransOrd κ] : ofList m.entries = m := by
  have hentries : (ofList m.entries).entries = empty.entries ++ m.entries :=
    entries_foldl_insert m.ascending
  exact eq_of_entries_eq hentries

/-- Without its key a binding leaves no trace, be it a new one or one in place of another. -/
theorem filter_insertEntry (entries : List (κ × α)) :
    (insertEntry k a entries).filter (fun e => compare k e.1 != .eq) =
      entries.filter fun e => compare k e.1 != .eq := by
  induction entries with
  | nil => simp [insertEntry]
  | cons e rest ih =>
    unfold insertEntry
    split
    · simp
    · next heq => simp [heq]
    · next hgt => simp [hgt, ih]

/-- Unbinding a key that has just been bound leaves what unbinding it before does. -/
theorem erase_insert [Std.TransOrd κ] : (m.insert k a).erase k = m.erase k :=
  eq_of_entries_eq (filter_insertEntry m.entries)

variable [DecidableEq κ]

/-- An inserted entry is what is found under its key, and under no other. -/
theorem lookup_insertEntry (entries : List (κ × α)) :
    lookup k (insertEntry k' a entries) = if k = k' then some a else lookup k entries := by
  induction entries with
  | nil => simp [insertEntry, lookup]
  | cons e rest ih =>
    unfold insertEntry
    split
    · simp [lookup]
    · next heq =>
      obtain rfl : k' = e.1 := Std.LawfulEqCmp.eq_of_compare heq
      by_cases hk : k = e.1
      · simp [lookup, hk]
      · simp [lookup, hk]
    · next hgt =>
      have hne : k' ≠ e.1 := by
        rintro rfl
        simp [Std.ReflCmp.compare_self] at hgt
      by_cases hk : k = e.1
      · simp [lookup, hk, hne.symm]
      · simp [lookup, hk, ih]

/-- Without the entries of a key nothing is found under that key, and the same as before under
every other. -/
theorem lookup_filter_ne (entries : List (κ × α)) :
    lookup k (entries.filter fun e => compare k' e.1 != .eq) =
      if k = k' then none else lookup k entries := by
  induction entries with
  | nil => simp [lookup]
  | cons e rest ih =>
    by_cases he : k' = e.1
    · have hgone : (compare k' e.1 != .eq) = false := by simp [he]
      rw [List.filter_cons_of_neg (by simp [hgone]), ih]
      by_cases hk : k = k'
      · simp [hk]
      · simp [lookup, hk, ← he]
    · have hstays : (compare k' e.1 != .eq) = true := by simp [he]
      have hfilter := List.filter_cons_of_pos (p := fun e : κ × α => compare k' e.1 != .eq)
        (l := rest) hstays
      rw [hfilter, lookup, lookup, ih]
      by_cases hk : k = e.1
      · simp [hk, Ne.symm he]
      · simp [hk]

/-- Only the key that is bound is bound anew. -/
theorem get?_insert [Std.TransOrd κ] :
    (m.insert k' a).get? k = if k = k' then some a else m.get? k :=
  lookup_insertEntry m.entries

/-- Only the key that is unbound is not bound any more. -/
theorem get?_erase : (m.erase k').get? k = if k = k' then none else m.get? k :=
  lookup_filter_ne m.entries

/-- The keys that are listed are those that are bound. -/
theorem mem_keys_iff_contains : k ∈ m.keys ↔ m.contains k = true := by
  obtain ⟨entries, hascending⟩ := m
  simp only [keys, contains, get?]
  clear hascending
  induction entries with
  | nil => simp [lookup]
  | cons e rest ih =>
    by_cases hk : k = e.1
    · simp [lookup, hk]
    · simp only [List.map_cons, List.mem_cons, hk, false_or, ih, lookup,
        Std.LawfulEqCmp.compare_eq_iff_eq, if_false]

/-- The entries are what the keys are bound to. -/
theorem mem_entries_iff [Std.TransOrd κ] : (k, a) ∈ m.entries ↔ m.get? k = some a := by
  refine ⟨fun h => get?_of_mem h, fun h => ?_⟩
  have hmem : k ∈ m.keys :=
    mem_keys_iff_contains.mpr (by rw [contains, h, Option.isSome_some])
  obtain ⟨⟨k', a'⟩, he, rfl⟩ := List.mem_map.mp hmem
  obtain rfl : a' = a := Option.some.inj ((get?_of_mem he).symm.trans h)
  exact he

/-- Unbinding a key that is not bound changes nothing. -/
theorem erase_eq_self (h : m.contains k = false) : m.erase k = m := by
  refine eq_of_entries_eq (List.filter_eq_self.mpr fun e he => ?_)
  have hmem : e.1 ∈ m.keys := List.mem_map_of_mem he
  simp only [bne_iff_ne, ne_eq, Std.LawfulEqCmp.compare_eq_iff_eq]
  rintro rfl
  simp [mem_keys_iff_contains.mp hmem] at h

end SortedMap

namespace NameSet

variable {names : NameSet} {name other : String}

/-- A name is in a set after another has been added exactly if it is that one or was in it. -/
theorem contains_add_iff :
    (names.add other).contains name = true ↔ name = other ∨ names.contains name = true := by
  simp only [add, SortedMap.contains, SortedMap.get?_insert]
  by_cases hname : name = other
  · simp [hname]
  · simp [hname]

/-- A name is in a set after another has been erased exactly if it is not that one and was in
it. -/
theorem contains_erase_iff :
    (names.erase other).contains name = true ↔ name ≠ other ∧ names.contains name = true := by
  simp only [SortedMap.contains, SortedMap.get?_erase]
  by_cases hname : name = other
  · simp [hname]
  · simp [hname]

/-- A name that is new to the set can be added and taken out again. -/
theorem erase_add (h : names.contains name = false) : (names.add name).erase name = names := by
  rw [add, SortedMap.erase_insert, SortedMap.erase_eq_self h]

end NameSet

end RelationalStore
