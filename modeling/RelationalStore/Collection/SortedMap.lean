/-!
# Maps sorted by key

A map is the list of its entries with strictly ascending keys. So a map is
determined by what its keys are bound to, and listing it needs no further sorting.
-/

namespace RelationalStore

/-- Entries with strictly ascending keys. -/
structure SortedMap (κ α : Type) [Ord κ] where
  entries : List (κ × α)
  ascending : entries.Pairwise fun a b => compare a.1 b.1 = .lt

namespace SortedMap

variable {κ α : Type} [Ord κ]

instance [DecidableEq κ] [DecidableEq α] : DecidableEq (SortedMap κ α) := fun a b =>
  decidable_of_iff (a.entries = b.entries) (by cases a; cases b; simp)

instance [Repr κ] [Repr α] : Repr (SortedMap κ α) := ⟨fun m n => reprPrec m.entries n⟩

/-- The map without entries. -/
def empty : SortedMap κ α := ⟨[], .nil⟩

instance : Inhabited (SortedMap κ α) := ⟨empty⟩

/-- The keys, ascending. -/
def keys (m : SortedMap κ α) : List κ :=
  m.entries.map Prod.fst

/-- The number of entries. -/
def size (m : SortedMap κ α) : Nat :=
  m.entries.length

/-- What a key is bound to in a list of entries. -/
def lookup (k : κ) : List (κ × α) → Option α
  | [] => none
  | e :: rest => if compare k e.1 = .eq then some e.2 else lookup k rest

/-- What a key is bound to. -/
def get? (m : SortedMap κ α) (k : κ) : Option α :=
  lookup k m.entries

/-- Whether a key is bound. -/
def contains (m : SortedMap κ α) (k : κ) : Bool :=
  (m.get? k).isSome

/-- Binds a key in ascending entries. -/
def insertEntry (k : κ) (a : α) : List (κ × α) → List (κ × α)
  | [] => [(k, a)]
  | e :: rest =>
    match compare k e.1 with
    | .lt => (k, a) :: e :: rest
    | .eq => (k, a) :: rest
    | .gt => e :: insertEntry k a rest

/-- Every entry after an insertion is the new one or was there before. -/
theorem mem_of_mem_insertEntry {k : κ} {a : α} {entries : List (κ × α)} {e : κ × α}
    (h : e ∈ insertEntry k a entries) : e = (k, a) ∨ e ∈ entries := by
  induction entries with
  | nil => simpa [insertEntry] using h
  | cons first rest ih =>
    unfold insertEntry at h
    split at h
    · simpa using h
    · rcases List.mem_cons.mp h with h | h
      · exact .inl h
      · exact .inr (List.mem_cons_of_mem _ h)
    · rcases List.mem_cons.mp h with h | h
      · exact .inr (h ▸ List.mem_cons_self)
      · exact (ih h).imp_right (List.mem_cons_of_mem _)

/-- Leaving entries out keeps the keys ascending. -/
theorem ascending_filter (p : κ × α → Bool) {entries : List (κ × α)}
    (h : entries.Pairwise fun a b => compare a.1 b.1 = .lt) :
    (entries.filter p).Pairwise fun a b => compare a.1 b.1 = .lt :=
  h.sublist List.filter_sublist

/-- Unbinds a key. -/
def erase (m : SortedMap κ α) (k : κ) : SortedMap κ α :=
  ⟨m.entries.filter fun e => compare k e.1 != .eq, ascending_filter _ m.ascending⟩

variable [Std.TransOrd κ]

/-- An insertion keeps the keys ascending, for keys that the order tells apart. -/
theorem ascending_insertEntry [Std.LawfulEqOrd κ] (k : κ) (a : α) {entries : List (κ × α)}
    (h : entries.Pairwise fun a b => compare a.1 b.1 = .lt) :
    (insertEntry k a entries).Pairwise fun a b => compare a.1 b.1 = .lt := by
  induction entries with
  | nil => exact List.pairwise_singleton _ _
  | cons first rest ih =>
    obtain ⟨hfirst, hrest⟩ := List.pairwise_cons.mp h
    unfold insertEntry
    split
    · next hlt =>
      refine List.pairwise_cons.mpr ⟨fun e he => ?_, h⟩
      rcases List.mem_cons.mp he with rfl | he
      · exact hlt
      · exact Std.TransCmp.lt_trans hlt (hfirst e he)
    · next heq =>
      obtain rfl : k = first.1 := Std.LawfulEqCmp.eq_of_compare heq
      exact List.pairwise_cons.mpr ⟨hfirst, hrest⟩
    · next hgt =>
      refine List.pairwise_cons.mpr ⟨fun e he => ?_, ih hrest⟩
      rcases mem_of_mem_insertEntry he with rfl | he
      · exact Std.OrientedCmp.lt_of_gt hgt
      · exact hfirst e he

/-- Binds a key; an earlier binding of the key is replaced. -/
def insert [Std.LawfulEqOrd κ] (m : SortedMap κ α) (k : κ) (a : α) : SortedMap κ α :=
  ⟨insertEntry k a m.entries, ascending_insertEntry k a m.ascending⟩

/-- The map that binds each key of a list to its last value there. -/
def ofList [Std.LawfulEqOrd κ] (bindings : List (κ × α)) : SortedMap κ α :=
  bindings.foldl (fun m e => m.insert e.1 e.2) empty

end SortedMap

/-- A set of names, listed in ascending order of their code points. -/
abbrev NameSet := SortedMap String Unit

namespace NameSet

/-- The set with one more name. -/
def add (names : NameSet) (name : String) : NameSet :=
  names.insert name ()

/-- The set of the names of a list. -/
def ofNames (names : List String) : NameSet :=
  SortedMap.ofList (names.map fun name => (name, ()))

end NameSet

end RelationalStore
