import RelationalStore.Proofs.Catalog.TableMap
import RelationalStore.Proofs.Table.Links
import RelationalStore.Proofs.Table.Sound

/-!
# Integrity of all tables together

The tables of a catalog are integral when each of them is sound, each foreign key fits a
target that is kept, and no reference dangles. Moreover every table lists exactly those
that have a foreign key to it. The lists decide which tables a deletion looks at, so the
two parts are needed together, but the first one does not speak of the lists.
-/

namespace RelationalStore

/-- No column of a foreign key is NULL in the row. -/
def Table.Definite (t : Table) (row : Row) : Prop :=
  ∀ fk ∈ t.foreignKeys, ∀ column ∈ fk.columns, t.schema.value? row column ≠ some .null

/-- A foreign key fits every table with the columns and the primary key of its target. -/
theorem ForeignKey.Fits.congr {fk : ForeignKey} {source : Schema} {target target' : Table}
    (h : fk.Fits source target) (hschema : target'.schema = target.schema)
    (hkey : target'.primaryKey = target.primaryKey) : fk.Fits source target' :=
  ⟨hkey ▸ h.covers, hschema ▸ h.pairs⟩

namespace TableMap

/-- The row is linked to a row that is kept through every foreign key with columns. -/
def Linked (tables : TableMap) (t : Table) (row : Row) : Prop :=
  ∀ fk ∈ t.foreignKeys, fk.columns ≠ [] → ∃ target, tables.find fk.table = some target ∧
    ∃ found ∈ target.rows, fk.Links t.schema row target.schema found

/-- The table of the first name has a foreign key to that of the second. -/
def References (tables : TableMap) (other name : String) : Prop :=
  ∃ u, tables.find other = some u ∧ ∃ fk ∈ u.foreignKeys, fk.table = name

/-- Each table is sound, and so are the references from one to another. -/
structure Integral (tables : TableMap) : Prop where
  sound : ∀ name t, tables.find name = some t → t.Sound
  /-- A foreign key leads to another table, which it fits. -/
  targets : ∀ name t, tables.find name = some t → ∀ fk ∈ t.foreignKeys,
    fk.table ≠ name ∧ ∃ target, tables.find fk.table = some target ∧ fk.Fits t.schema target
  /-- No row without NULL in its references has a reference that dangles. -/
  linked : ∀ name t, tables.find name = some t → ∀ row ∈ t.rows,
    t.Definite row → tables.Linked t row

/-- Each table also lists exactly the tables that have a foreign key to it. -/
structure Sound (tables : TableMap) : Prop extends Integral tables where
  listed : ∀ name t, tables.find name = some t → ∀ other,
    t.referencedBy.contains other = true ↔ tables.References other name

variable {tables : TableMap} {t : Table} {name other : String}
variable {change : String → NameSet → NameSet}

/-- A map without tables is sound. -/
theorem sound_empty : empty.Sound where
  sound := by simp [empty]
  targets := by simp [empty]
  linked := by simp [empty]
  listed := by simp [empty]

/-- A name that is not kept is not referenced. -/
theorem Integral.not_references (h : tables.Integral) (hnone : tables.find name = none) :
    ¬ tables.References other name := by
  rintro ⟨u, hu, fk, hfk, rfl⟩
  obtain ⟨_, target, htarget, _⟩ := h.targets other u hu fk hfk
  simp [hnone] at htarget

/-- No table references itself. -/
theorem Integral.not_references_self (h : tables.Integral) : ¬ tables.References name name := by
  rintro ⟨u, hu, fk, hfk, htable⟩
  exact (h.targets name u hu fk hfk).1 htable

/-- Changing what is listed as referencing a table changes no reference. -/
theorem references_relist_iff :
    (tables.relist change).References other name ↔ tables.References other name := by
  simp only [References, find_relist_eq_some_iff]
  constructor
  · rintro ⟨_, ⟨u, hu, rfl⟩, hfk⟩
    exact ⟨u, hu, hfk⟩
  · rintro ⟨u, hu, hfk⟩
    exact ⟨_, ⟨u, hu, rfl⟩, hfk⟩

/-- Integrity does not depend on the lists of referencing tables. -/
theorem Integral.relist (h : tables.Integral) (change : String → NameSet → NameSet) :
    (tables.relist change).Integral := by
  refine ⟨fun name t ht => ?_, fun name t ht fk hfk => ?_, fun name t ht row hrow hdefinite => ?_⟩
  · obtain ⟨u, hu, rfl⟩ := find_relist_eq_some_iff.mp ht
    have hsound := h.sound name u hu
    exact ⟨hsound.distinct, hsound.primary_iff, hsound.key_defined, hsound.key_required,
      hsound.nullable_iff, hsound.admits, hsound.keys_differ⟩
  · obtain ⟨u, hu, rfl⟩ := find_relist_eq_some_iff.mp ht
    obtain ⟨hother, target, htarget, hfits⟩ := h.targets name u hu fk hfk
    exact ⟨hother, _, find_relist_eq_some_iff.mpr ⟨target, htarget, rfl⟩, hfits.congr rfl rfl⟩
  · obtain ⟨u, hu, rfl⟩ := find_relist_eq_some_iff.mp ht
    intro fk hfk hcolumns
    obtain ⟨target, htarget, found, hfound, hlinks⟩ :=
      h.linked name u hu row hrow hdefinite fk hfk hcolumns
    exact ⟨_, find_relist_eq_some_iff.mpr ⟨target, htarget, rfl⟩, found, hfound, hlinks⟩

/-- A table is found after a removal exactly if it was there under another name than the removed
one. -/
theorem find_remove_eq_some_iff :
    (tables.remove name).find other = some t ↔ other ≠ name ∧ tables.find other = some t := by
  by_cases hother : other = name
  · simp [remove, hother]
  · simp [remove, hother]

/-- The references after a removal are those of the other tables. -/
theorem references_remove_iff {n : String} :
    (tables.remove name).References other n ↔ other ≠ name ∧ tables.References other n := by
  simp only [References, find_remove_eq_some_iff]
  constructor
  · rintro ⟨u, ⟨hother, hu⟩, hfk⟩
    exact ⟨hother, u, hu, hfk⟩
  · rintro ⟨hother, u, hu, hfk⟩
    exact ⟨u, ⟨hother, hu⟩, hfk⟩

/-- A table that nothing references can be taken out. -/
theorem Integral.remove (h : tables.Integral) (hfree : ∀ other, ¬ tables.References other name) :
    (tables.remove name).Integral := by
  have htarget {other : String} {u target : Table} (hu : tables.find other = some u)
      {fk : ForeignKey} (hfk : fk ∈ u.foreignKeys) (hfind : tables.find fk.table = some target) :
      (tables.remove name).find fk.table = some target :=
    find_remove_eq_some_iff.mpr ⟨fun heq => hfree other ⟨u, hu, fk, hfk, heq⟩, hfind⟩
  refine ⟨fun other u hu => ?_, fun other u hu fk hfk => ?_,
    fun other u hu row hrow hdefinite => ?_⟩
  · exact h.sound other u (find_remove_eq_some_iff.mp hu).2
  · obtain ⟨_, hu⟩ := find_remove_eq_some_iff.mp hu
    obtain ⟨hother, target, hfind, hfits⟩ := h.targets other u hu fk hfk
    exact ⟨hother, target, htarget hu hfk hfind, hfits⟩
  · obtain ⟨_, hu⟩ := find_remove_eq_some_iff.mp hu
    intro fk hfk hcolumns
    obtain ⟨target, hfind, hfound⟩ := h.linked other u hu row hrow hdefinite fk hfk hcolumns
    exact ⟨target, htarget hu hfk hfind, hfound⟩

end TableMap

end RelationalStore
