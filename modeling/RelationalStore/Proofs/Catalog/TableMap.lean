import RelationalStore.Proofs.Collection.SortedMap
import RelationalStore.Proofs.Table.Reading

/-!
# Catalogs as maps

What a catalog keeps is a map from names to tables, each of which bears its name. The
changes that statements make are those of the map: tables are saved one by one, a table
is taken out, and a name is taken out of the tables that it references.
-/

namespace RelationalStore

/-- Tables by their names. -/
@[ext]
structure TableMap where
  find : String → Option Table
  named : ∀ name t, find name = some t → t.name = name

namespace TableMap

/-- The map without tables. -/
def empty : TableMap := ⟨fun _ => none, by simp⟩

/-- How a table is read from the map, which never fails. -/
def read (tables : TableMap) : TableReader := fun name => .ok (tables.find name)

/-- Puts a table under its name. -/
def save (tables : TableMap) (t : Table) : TableMap where
  find name := if name = t.name then some t else tables.find name
  named name u h := by
    split at h
    · next hname => exact Option.some.inj h ▸ hname.symm
    · exact tables.named name u h

/-- Puts several tables under their names, one after another. -/
def saveAll (tables : TableMap) (changed : List Table) : TableMap :=
  changed.foldl save tables

/-- Takes a table out. -/
def remove (tables : TableMap) (name : String) : TableMap where
  find other := if other = name then none else tables.find other
  named other u h := by
    split at h
    · cases h
    · exact tables.named other u h

/-- Changes which tables are listed as referencing the table of each name. -/
def relist (tables : TableMap) (change : String → NameSet → NameSet) : TableMap where
  find name := (tables.find name).map fun u =>
    { u with referencedBy := change name u.referencedBy }
  named name u h := by
    obtain ⟨v, hv, rfl⟩ := Option.map_eq_some_iff.mp h
    exact tables.named name v hv

/-- Enters a name in the tables that it references. -/
def enter (tables : TableMap) (name : String) (targets : List String) : TableMap :=
  tables.relist fun target names => if target ∈ targets then names.add name else names

/-- Takes a name out of the tables that it references. -/
def leave (tables : TableMap) (name : String) (targets : List String) : TableMap :=
  tables.relist fun target names => if target ∈ targets then names.erase name else names

variable {tables : TableMap} {t u : Table} {name : String} {changed : List Table}

/-- A table is read exactly if it is found. -/
theorem read_eq_some_iff : tables.read name = .ok (some t) ↔ tables.find name = some t := by
  simp [read]

/-- A table that is found at all is found under its own name. -/
theorem find_self (h : tables.find name = some t) : tables.find t.name = some t := by
  rw [tables.named name t h, h]

/-- Saving a table changes what is found under its name and nothing else. -/
theorem find_save :
    (tables.save t).find name = if name = t.name then some t else tables.find name :=
  rfl

/-- Removing a table changes what is found under its name and nothing else. -/
theorem find_remove {other : String} : (tables.remove name).find other =
    if other = name then none else tables.find other :=
  rfl

/-- Changing which tables refer to a table changes nothing else about the table that is found. -/
theorem find_relist {change : String → NameSet → NameSet} : (tables.relist change).find name =
    (tables.find name).map fun u => { u with referencedBy := change name u.referencedBy } :=
  rfl

/-- A table is found after such a change exactly if it is one that was found, with its
references changed. -/
theorem find_relist_eq_some_iff {change : String → NameSet → NameSet} :
    (tables.relist change).find name = some u ↔
      ∃ v, tables.find name = some v ∧ u = { v with referencedBy := change name v.referencedBy } :=
  Option.map_eq_some_iff.trans (exists_congr fun _ => and_congr_right fun _ => eq_comm)

/-- Saving tables of other names does not change what is found under a name. -/
theorem find_saveAll_of_forall_ne (h : ∀ u ∈ changed, u.name ≠ name) :
    (tables.saveAll changed).find name = tables.find name := by
  induction changed generalizing tables with
  | nil => rfl
  | cons u changed ih =>
    obtain ⟨hu, hchanged⟩ := List.forall_mem_cons.mp h
    have hrest := @ih (tables.save u) hchanged
    rw [find_save, if_neg hu.symm] at hrest
    exact hrest

/-- Among tables of different names each one is found under its name. -/
theorem find_saveAll_of_mem (hnodup : (changed.map (·.name)).Nodup) (h : u ∈ changed) :
    (tables.saveAll changed).find u.name = some u := by
  induction changed generalizing tables with
  | nil => cases h
  | cons v changed ih =>
    obtain ⟨hnew, hnodup⟩ := List.nodup_cons.mp hnodup
    rcases List.mem_cons.mp h with rfl | h
    · have hothers : ∀ w ∈ changed, w.name ≠ u.name := fun w hw hname =>
        hnew (List.mem_map.mpr ⟨w, hw, hname⟩)
      have hrest := @find_saveAll_of_forall_ne (tables.save u) u.name changed hothers
      rwa [find_save, if_pos rfl] at hrest
    · exact ih hnodup h

/-- Leaving no tables changes nothing. -/
theorem leave_nil : tables.leave name [] = tables := by
  ext1
  funext other
  simp [leave, relist]

/-- A table that does not list the name, or is not there, need not be left. -/
theorem leave_cons_of_not_contains {target : String} {targets : List String}
    (h : ∀ t, tables.find target = some t → t.referencedBy.contains name = false) :
    tables.leave name (target :: targets) = tables.leave name targets := by
  ext1
  funext other
  cases hfind : tables.find other with
  | none => simp [leave, relist, hfind]
  | some t =>
    by_cases hother : other = target
    · subst hother
      simp [leave, relist, hfind, SortedMap.erase_eq_self (h t hfind)]
    · simp [leave, relist, hfind, hother]

/-- A table that is left is stored first, if it is not left once more. -/
theorem leave_cons {target : String} {targets : List String} {t : Table}
    (hnew : target ∉ targets) (hfind : tables.find target = some t) :
    tables.leave name (target :: targets) =
      (tables.save (t.withoutReferrer name)).leave name targets := by
  ext1
  funext other
  have hname : t.name = target := tables.named target t hfind
  by_cases hother : other = target
  · simp [leave, relist, save, Table.withoutReferrer, hname, hfind, hnew, hother]
  · simp [leave, relist, save, Table.withoutReferrer, hname, hother]

end TableMap

end RelationalStore
