import RelationalStore.Proofs.Integrity.Basic
import RelationalStore.Proofs.Table.Definition

/-!
# Tables that come and go

A table that is created has no rows and references tables that are kept, and these list
it from then on. A table that is dropped is referenced by none, and no table lists it any
more. Both leave all rows as they are.
-/

namespace RelationalStore

namespace TableMap

variable {tables : TableMap} {t u : Table} {name other : String}

/-- A table is found after one has been saved exactly if it is this one, or was there under
another name. -/
theorem find_save_eq_some_iff :
    (tables.save t).find other = some u ↔
      other = t.name ∧ t = u ∨ other ≠ t.name ∧ tables.find other = some u := by
  by_cases hother : other = t.name
  · simp [save, hother]
  · simp [save, hother]

/-- Storing the targets of a new table enters its name in each of them. -/
theorem saveAll_entered {targets : List Table} (h : Table.Targets tables.read t targets) :
    tables.saveAll (targets.map (·.withReferrer name)) =
      tables.enter name (t.foreignKeys.map (·.table)) := by
  have hnames : ((targets.map (·.withReferrer name)).map (·.name)).Nodup := by
    rw [List.map_map]
    exact h.different
  ext1
  funext other
  by_cases hother : ∃ u ∈ targets, u.name = other
  · obtain ⟨u, hu, rfl⟩ := hother
    obtain ⟨fk, hfk, htable⟩ := h.referenced u hu
    have hmem : u.name ∈ t.foreignKeys.map (·.table) := List.mem_map.mpr ⟨fk, hfk, htable⟩
    have hfind := read_eq_some_iff.mp (h.stored u hu)
    have hsaved := @find_saveAll_of_mem tables _ _ hnames (List.mem_map_of_mem hu)
    have hentered : (tables.enter name (t.foreignKeys.map (·.table))).find u.name =
        some (u.withReferrer name) := by
      simp only [enter, relist, hfind, Option.map_some, hmem, if_true]
      rfl
    exact hsaved.trans hentered.symm
  · have hothers : ∀ v ∈ targets.map (·.withReferrer name), v.name ≠ other := by
      rintro _ hv rfl
      obtain ⟨u, hu, rfl⟩ := List.mem_map.mp hv
      exact hother ⟨u, hu, rfl⟩
    have hmem : other ∉ t.foreignKeys.map (·.table) := by
      intro hmem
      obtain ⟨fk, hfk, rfl⟩ := List.mem_map.mp hmem
      obtain ⟨u, hu, hname, _⟩ := h.fits fk hfk
      exact hother ⟨u, hu, hname⟩
    rw [find_saveAll_of_forall_ne hothers]
    simp only [enter, relist, hmem, if_false]
    cases tables.find other with
    | none => rfl
    | some u => rfl

/-- A new table without rows can be stored if its foreign keys fit tables that are. -/
theorem Integral.save_nascent (h : tables.Integral) (ht : t.Nascent name)
    (hnew : tables.find name = none)
    (hfits : ∀ fk ∈ t.foreignKeys, ∃ u, tables.find fk.table = some u ∧ fk.Fits t.schema u) :
    (tables.save t).Integral := by
  have hkept {n : String} {u : Table} (hu : tables.find n = some u) :
      (tables.save t).find n = some u := by
    refine find_save_eq_some_iff.mpr (.inr ⟨?_, hu⟩)
    rintro rfl
    rw [ht.name_eq, hnew] at hu
    cases hu
  refine ⟨fun n u hu => ?_, fun n u hu fk hfk => ?_, fun n u hu row hrow hdefinite => ?_⟩
  · rcases find_save_eq_some_iff.mp hu with ⟨_, rfl⟩ | ⟨_, hu⟩
    · exact ht.sound
    · exact h.sound n u hu
  · rcases find_save_eq_some_iff.mp hu with ⟨rfl, rfl⟩ | ⟨_, hu⟩
    · obtain ⟨target, htarget, hfit⟩ := hfits fk hfk
      refine ⟨fun htable => ?_, target, hkept htarget, hfit⟩
      rw [htable, ht.name_eq, hnew] at htarget
      cases htarget
    · obtain ⟨hother, target, htarget, hfit⟩ := h.targets n u hu fk hfk
      exact ⟨hother, target, hkept htarget, hfit⟩
  · rcases find_save_eq_some_iff.mp hu with ⟨_, rfl⟩ | ⟨_, hu⟩
    · rw [ht.rows_eq] at hrow
      cases hrow
    · intro fk hfk hcolumns
      obtain ⟨target, htarget, hfound⟩ := h.linked n u hu row hrow hdefinite fk hfk hcolumns
      exact ⟨target, hkept htarget, hfound⟩

/-- A new table references its targets, and the others what they have referenced. -/
theorem references_save_iff {n : String} (hnew : tables.find t.name = none) :
    (tables.save t).References other n ↔
      (other = t.name ∧ n ∈ t.foreignKeys.map (·.table)) ∨ tables.References other n := by
  constructor
  · rintro ⟨u, hu, fk, hfk, rfl⟩
    rcases find_save_eq_some_iff.mp hu with ⟨hother, rfl⟩ | ⟨_, hu⟩
    · exact .inl ⟨hother, List.mem_map_of_mem hfk⟩
    · exact .inr ⟨u, hu, fk, hfk, rfl⟩
  · rintro (⟨hother, hn⟩ | ⟨u, hu, hfk⟩)
    · obtain ⟨fk, hfk, htable⟩ := List.mem_map.mp hn
      exact ⟨t, find_save_eq_some_iff.mpr (.inl ⟨hother, rfl⟩), fk, hfk, htable⟩
    · refine ⟨u, find_save_eq_some_iff.mpr (.inr ⟨?_, hu⟩), hfk⟩
      rintro rfl
      simp [hnew] at hu

/-- A new table is stored, and the tables that it references list it. -/
theorem Sound.enter_save (h : tables.Sound) (ht : t.Nascent t.name)
    (hnew : tables.find t.name = none)
    (hfits : ∀ fk ∈ t.foreignKeys, ∃ u, tables.find fk.table = some u ∧ fk.Fits t.schema u) :
    ((tables.enter t.name (t.foreignKeys.map (·.table))).save t).Sound := by
  have hentered : (tables.enter t.name (t.foreignKeys.map (·.table))).Integral := h.relist _
  have hfree : (tables.enter t.name (t.foreignKeys.map (·.table))).find t.name = none := by
    simp [enter, relist, hnew]
  have hintegral := hentered.save_nascent ht hfree fun fk hfk => by
    obtain ⟨u, hu, hfit⟩ := hfits fk hfk
    exact ⟨_, find_relist_eq_some_iff.mpr ⟨u, hu, rfl⟩, hfit.congr rfl rfl⟩
  refine ⟨hintegral, fun n u hu other => ?_⟩
  rw [references_save_iff hfree, enter, references_relist_iff]
  rcases find_save_eq_some_iff.mp hu with ⟨rfl, rfl⟩ | ⟨_, hu⟩
  · have hself : t.name ∉ t.foreignKeys.map (·.table) := by
      intro hmem
      obtain ⟨fk, hfk, htable⟩ := List.mem_map.mp hmem
      exact (hintegral.targets t.name t hu fk hfk).1 htable
    have hnone : ¬ tables.References other t.name := h.not_references hnew
    simp [ht.referencedBy_eq, SortedMap.contains, hself, hnone]
  · obtain ⟨v, hv, rfl⟩ := find_relist_eq_some_iff.mp hu
    have hlisted := h.listed n v hv other
    by_cases hn : n ∈ t.foreignKeys.map (·.table)
    · simp only [hn, if_true, NameSet.contains_add_iff, hlisted, and_true]
    · simp only [hn, if_false, hlisted, and_false, false_or]

/-- Creating a table keeps all tables sound. -/
theorem Sound.create (h : tables.Sound) {columns : List ColumnDefinition}
    {constraints : List TableConstraint} {entered : List Table}
    (hnew : tables.find name = none)
    (hdefine : Table.define name columns constraints tables.read = .ok (t, entered)) :
    ((tables.saveAll entered).save t).Sound := by
  obtain ⟨ht, targets, htargets, rfl⟩ := Table.define_eq_ok
    (fun n u hu => tables.named n u (read_eq_some_iff.mp hu)) hdefine
  obtain rfl := ht.name_eq
  rw [saveAll_entered htargets]
  refine h.enter_save ht hnew fun fk hfk => ?_
  obtain ⟨u, hu, hname, hfit⟩ := htargets.fits fk hfk
  exact ⟨u, read_eq_some_iff.mp (hname ▸ htargets.stored u hu), hfit⟩

/-- Dropping a table that nothing references keeps all tables sound. -/
theorem Sound.drop (h : tables.Sound) (hfind : tables.find t.name = some t)
    (hunreferenced : t.referencedBy.keys = []) :
    ((tables.leave t.name (t.foreignKeys.map (·.table)).eraseDups).remove t.name).Sound := by
  have hfree (other : String) : ¬ tables.References other t.name := by
    rw [← h.listed t.name t hfind other, ← SortedMap.mem_keys_iff_contains, hunreferenced]
    exact List.not_mem_nil
  have hleft := h.relist fun target names =>
    if target ∈ (t.foreignKeys.map (·.table)).eraseDups then names.erase t.name else names
  refine ⟨hleft.remove fun other => ?_, fun n u hu other => ?_⟩
  · rw [references_relist_iff]
    exact hfree other
  · obtain ⟨hn, hu⟩ := find_remove_eq_some_iff.mp hu
    obtain ⟨v, hv, rfl⟩ := find_relist_eq_some_iff.mp hu
    have hlisted := h.listed n v hv other
    rw [references_remove_iff, leave, references_relist_iff]
    by_cases hmem : n ∈ (t.foreignKeys.map (·.table)).eraseDups
    · simp only [hmem, if_true, NameSet.contains_erase_iff, hlisted]
    · simp only [hmem, if_false, hlisted]
      refine ⟨fun hrefers => ⟨?_, hrefers⟩, fun hrefers => hrefers.2⟩
      rintro rfl
      obtain ⟨w, hw, fk, hfk, rfl⟩ := hrefers
      obtain rfl := Option.some.inj (hfind.symm.trans hw)
      exact hmem (List.mem_eraseDups.mpr (List.mem_map_of_mem hfk))

end TableMap

end RelationalStore
