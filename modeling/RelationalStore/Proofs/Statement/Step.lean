import RelationalStore.Proofs.Catalog.Memory
import RelationalStore.Proofs.Result
import RelationalStore.Proofs.Statement.Commit

/-!
# What a statement does to the tables

A statement that is executed over a store in memory takes one of five steps on the map of
tables that the store holds. The steps say everything that the proofs about runs of
statements need to know: what was read, what was made of it, and what is stored.
-/

namespace RelationalStore

/-- What one statement does to the tables. -/
inductive TableMap.Step (tables : TableMap) : TableMap → Prop
  /-- The statement only reads, or it fails. -/
  | stay : Step tables tables
  /-- A table is defined under a new name and entered in the tables that it references. -/
  | create {name : String} {columns : List ColumnDefinition}
      {constraints : List TableConstraint} {t : Table} {targets : List Table}
      (hnew : tables.find name = none)
      (hdefine : Table.define name columns constraints tables.read = .ok (t, targets)) :
      Step tables ((tables.saveAll targets).save t)
  /-- A table that no other one references is taken out of those that it references. -/
  | drop {t : Table} (hfind : tables.find t.name = some t)
      (hunreferenced : t.referencedBy.keys = []) :
      Step tables ((tables.leave t.name (t.foreignKeys.map (·.table)).eraseDups).remove t.name)
  /-- A table takes in a row. -/
  | insert {t t' : Table} {columns : Option (List String)} {values : List Value}
      (hfind : tables.find t.name = some t)
      (hinsert : t.insert columns values tables.read = .ok t') :
      Step tables (tables.save t')
  /-- Rows of a table go, and the tables that reference it follow. -/
  | delete {t t' : Table} {condition : Option Condition} {d : Deletion}
      (hfind : tables.find t.name = some t)
      (hdelete : t.delete condition tables.read = .ok (t', d)) :
      Step tables (if d.removed.isEmpty then tables.saveAll d.changed
        else (tables.saveAll d.changed).save t')

namespace TableStore

open Catalog
open Access (leaveTargets leaveTargets_cons)

variable {c : TableStore Memory} {tables : TableMap} {name : String}

/-- Saving several tables saves them in the map that the store holds. -/
theorem Holds.saveAll (h : Holds c tables) (changed : List Table) :
    Holds (saveAll c changed) (tables.saveAll changed) := by
  induction changed generalizing c tables with
  | nil => exact h
  | cons t changed ih => exact ih (h.save t)

/-- A list without repetitions is made by keeping the first of equal names. -/
theorem nodup_eraseDups (names : List String) : names.eraseDups.Nodup := by
  induction hlength : names.length using Nat.strongRecOn generalizing names with
  | ind length ih =>
    cases names with
    | nil => simp
    | cons first rest =>
      rw [List.eraseDups_cons]
      have hshorter : (rest.filter fun name => !name == first).length < length := by
        have hfilter := List.length_filter_le (fun name => !name == first) rest
        rw [List.length_cons] at hlength
        omega
      refine List.nodup_cons.mpr ⟨?_, ih _ hshorter _ rfl⟩
      simp [List.mem_eraseDups]

/-- Taking a name out of its targets does so to the map, if all of them can be read. -/
theorem leaveTargets_holds {targets : List String} (h : Holds c tables)
    (hnodup : targets.Nodup)
    (hload : ∀ target ∈ targets, Catalog.load c target = .ok (tables.find target)) :
    ∃ left, leaveTargets name targets c = (.ok (), left) ∧
      Holds left (tables.leave name targets) := by
  induction targets generalizing c tables with
  | nil => exact ⟨c, rfl, TableMap.leave_nil ▸ h⟩
  | cons target targets ih =>
    obtain ⟨hnew, hnodup⟩ := List.nodup_cons.mp hnodup
    obtain ⟨htarget, hload⟩ := List.forall_mem_cons.mp hload
    cases hfind : tables.find target with
    | none =>
      rw [leaveTargets_cons, htarget, hfind, TableMap.leave_cons_of_not_contains (by simp [hfind])]
      exact ih h hnodup hload
    | some t =>
      rw [leaveTargets_cons, htarget, hfind]
      by_cases hcontains : t.referencedBy.contains name = true
      · simp only [hcontains, if_true]
        rw [TableMap.leave_cons hnew hfind]
        have hname : (t.withoutReferrer name).name = target := tables.named target t hfind
        refine ih (h.save _) hnodup fun other hother => ?_
        have hne : other ≠ target := fun heq => hnew (heq ▸ hother)
        rw [load_save_of_ne (hname.symm ▸ hne), hload other hother, TableMap.find_save,
          if_neg (hname.symm ▸ hne)]
      · simp only [hcontains]
        rw [TableMap.leave_cons_of_not_contains (by simpa [hfind] using hcontains)]
        exact ih h hnodup hload

/-- A table is there to be asked for exactly if it can be read. -/
theorem require_eq_ok_iff {κ : Type} [Catalog κ] {catalog : κ} {t : Table} :
    require catalog name = .ok t ↔ Catalog.load catalog name = .ok (some t) := by
  simp only [require, bind_eq_ok_iff]
  constructor
  · rintro ⟨t?, hload, h⟩
    cases t? with
    | none => cases h
    | some u => rw [hload, pure_eq_ok_iff.mp h]
  · intro hload
    exact ⟨some t, hload, rfl⟩

/-- A table that a statement gets is found in the map that the store holds. -/
theorem require_eq_ok {t : Table} (h : Holds c tables) (hfits : c.FitsMemory)
    (hrequire : require c name = .ok t) : tables.find name = some t := by
  have hload := require_eq_ok_iff.mp hrequire
  rw [h.load_eq_find hfits] at hload
  exact Except.ok.inj hload

/-- The definition of a table fails without a trace, or the table is new and is stored with
those that it references. -/
theorem executeCreate_cases {columns : List ColumnDefinition} {constraints : List TableConstraint}
    (h : Holds c tables) (hfits : c.FitsMemory) :
    (∃ f, (Statement.createTable name columns constraints).execute c = (.error f, c)) ∨
      ∃ t targets c', tables.find name = none ∧
        Table.define name columns constraints tables.read = .ok (t, targets) ∧
        (Statement.createTable name columns constraints).execute c = (.ok (.created name), c') ∧
        Holds c' ((tables.saveAll targets).save t) := by
  rw [Statement.execute_createTable, Statement.executeCreate]
  split
  · exact .inl ⟨_, rfl⟩
  · next hfree =>
    rw [h.load_eq_read hfits]
    cases hdefine : Table.define name columns constraints tables.read with
    | error f => exact .inl ⟨f, rfl⟩
    | ok result =>
      obtain ⟨t, targets⟩ := result
      have hnew : tables.find name = none := by
        refine Option.eq_none_iff_forall_ne_some.mpr fun u hu => hfree ?_
        exact h.has_iff.mpr ⟨u, hu⟩
      exact .inr ⟨t, targets, _, hnew, rfl, rfl, (h.saveAll targets).save t⟩

/-- A definition of a new table that the tables admit is executed and stores what it makes. -/
theorem Holds.executeCreate {columns : List ColumnDefinition}
    {constraints : List TableConstraint} {t : Table} {targets : List Table}
    (h : Holds c tables) (hfits : c.FitsMemory) (hnew : tables.find name = none)
    (hdefine : Table.define name columns constraints tables.read = .ok (t, targets)) :
    (Statement.createTable name columns constraints).execute c =
      (.ok (.created name), Catalog.save (Catalog.saveAll c targets) t) := by
  have hfree : ¬ Catalog.has c name = true := by simp [h.has_iff, hnew]
  rw [Statement.execute_createTable, Statement.executeCreate, if_neg hfree,
    h.load_eq_read hfits, hdefine]
  rfl

/-- The creation of a table is a step of the map that the store holds, or changes nothing. -/
theorem executeCreate_step {columns : List ColumnDefinition} {constraints : List TableConstraint}
    (h : Holds c tables) (hfits : c.FitsMemory) :
    ∃ tables', Holds ((Statement.createTable name columns constraints).execute c).2 tables' ∧
      tables.Step tables' := by
  rcases @executeCreate_cases c tables name columns constraints h hfits with
    ⟨f, hfails⟩ | ⟨t, targets, c', hnew, hdefine, hcreate, hholds⟩
  · rw [hfails]
    exact ⟨tables, h, .stay⟩
  · rw [hcreate]
    exact ⟨_, hholds, .create hnew hdefine⟩

/-- A table that no other one references is dropped, and does not come back as a name in
those that it references. -/
theorem Holds.executeDrop {t : Table} (h : Holds c tables) (hfits : c.FitsMemory)
    (hfind : tables.find t.name = some t) (hunreferenced : t.referencedBy.keys = []) :
    ∃ c', (Statement.dropTable t.name).execute c = (.ok (.dropped t.name), c') ∧
      Holds c' ((tables.leave t.name (t.foreignKeys.map (·.table)).eraseDups).remove t.name) := by
  have hload : ∀ target, Catalog.load c target = .ok (tables.find target) :=
    h.load_eq_find hfits
  have hrequire : require c t.name = .ok t := require_eq_ok_iff.mpr (by rw [hload, hfind])
  obtain ⟨left, hleft, hholds⟩ := @leaveTargets_holds c tables t.name
    (t.foreignKeys.map (·.table)).eraseDups h (nodup_eraseDups _) fun target _ => hload target
  refine ⟨Catalog.remove left t.name, ?_, hholds.remove t.name⟩
  simp only [Statement.execute_dropTable, Statement.executeDrop, hrequire, hunreferenced,
    List.isEmpty_nil, if_true, hleft]

/-- The drop of a table is a step of the map that the store holds, or changes nothing. -/
theorem executeDrop_step (h : Holds c tables) (hfits : c.FitsMemory) :
    ∃ tables', Holds ((Statement.dropTable name).execute c).2 tables' ∧ tables.Step tables' := by
  cases hrequire : require c name with
  | error f =>
    simp only [Statement.execute_dropTable, Statement.executeDrop, hrequire]
    exact ⟨tables, h, .stay⟩
  | ok t =>
    have hfind := require_eq_ok h hfits hrequire
    obtain rfl := tables.named name t hfind
    by_cases hunreferenced : t.referencedBy.keys = []
    · obtain ⟨c', hdrop, hholds⟩ := h.executeDrop hfits hfind hunreferenced
      rw [hdrop]
      exact ⟨_, hholds, .drop hfind hunreferenced⟩
    · simp only [Statement.execute_dropTable, Statement.executeDrop, hrequire, List.isEmpty_iff,
        hunreferenced, if_false]
      exact ⟨tables, h, .stay⟩

/-- An insertion into a table that can be read does what the table makes of it. -/
theorem execute_insert {κ : Type} [Catalog κ] {catalog : κ} {t : Table}
    (hload : Catalog.load catalog name = .ok (some t)) (columns : Option (List String))
    (values : List Value) :
    (Statement.insert name columns values).execute catalog =
      Access.commit catalog (t.insert columns values (Catalog.load catalog)) fun t' =>
        (.inserted 1, Catalog.save catalog t') := by
  rw [Statement.execute_insert, Statement.executeInsert, require_eq_ok_iff.mpr hload]
  rfl

/-- An insertion fails without a trace, or the table with one more row is stored. -/
theorem executeInsert_cases {columns : Option (List String)} {values : List Value}
    (h : Holds c tables) (hfits : c.FitsMemory) :
    (∃ f, (Statement.insert name columns values).execute c = (.error f, c)) ∨
      ∃ t t' c', tables.find name = some t ∧ t.insert columns values tables.read = .ok t' ∧
        (Statement.insert name columns values).execute c = (.ok (.inserted 1), c') ∧
        Holds c' (tables.save t') := by
  rw [Statement.execute_insert, Statement.executeInsert]
  rw [h.load_eq_read hfits]
  cases hinsert : (do let t ← require c name; t.insert columns values tables.read) with
  | error f => exact .inl ⟨f, rfl⟩
  | ok t' =>
    obtain ⟨t, hrequire, hinsert⟩ := bind_eq_ok_iff.mp hinsert
    exact .inr ⟨t, t', _, require_eq_ok h hfits hrequire, hinsert, rfl, h.save t'⟩

/-- An insertion that a table admits is executed and stores what it has made. -/
theorem Holds.executeInsert {t t' : Table} {columns : Option (List String)}
    {values : List Value} (h : Holds c tables) (hfits : c.FitsMemory)
    (hfind : tables.find t.name = some t)
    (hinsert : t.insert columns values tables.read = .ok t') :
    (Statement.insert t.name columns values).execute c =
      (.ok (.inserted 1), Catalog.save c t') := by
  have hload : Catalog.load c t.name = .ok (some t) := by rw [h.load_eq_find hfits, hfind]
  rw [execute_insert hload, h.load_eq_read hfits, hinsert]
  rfl

/-- An insertion is a step of the map that the store holds, or changes nothing. -/
theorem executeInsert_step {columns : Option (List String)} {values : List Value}
    (h : Holds c tables) (hfits : c.FitsMemory) :
    ∃ tables', Holds ((Statement.insert name columns values).execute c).2 tables' ∧
      tables.Step tables' := by
  rcases @executeInsert_cases c tables name columns values h hfits with
    ⟨f, hfails⟩ | ⟨t, t', c', hfind, hinsert, hexecute, hholds⟩
  · rw [hfails]
    exact ⟨tables, h, .stay⟩
  · rw [hexecute]
    exact ⟨_, hholds, .insert (tables.find_self hfind) hinsert⟩

/-- A deletion fails without a trace, or what comes of the tables is stored. -/
theorem executeDelete_cases {condition : Option Condition} (h : Holds c tables)
    (hfits : c.FitsMemory) :
    (∃ f, (Statement.delete name condition).execute c = (.error f, c)) ∨
      ∃ t t' d c', tables.find name = some t ∧ t.delete condition tables.read = .ok (t', d) ∧
        (Statement.delete name condition).execute c =
          (.ok (.deleted d.removed.length d.blocked), c') ∧
        Holds c' (if d.removed.isEmpty then tables.saveAll d.changed
          else (tables.saveAll d.changed).save t') := by
  rw [Statement.execute_delete, Statement.executeDelete]
  rw [h.load_eq_read hfits]
  cases hdelete : (do let t ← require c name; t.delete condition tables.read) with
  | error f => exact .inl ⟨f, rfl⟩
  | ok result =>
    obtain ⟨t', d⟩ := result
    obtain ⟨t, hrequire, hdelete⟩ := bind_eq_ok_iff.mp hdelete
    refine .inr ⟨t, t', d, _, require_eq_ok h hfits hrequire, hdelete, rfl, ?_⟩
    split
    · exact h.saveAll d.changed
    · exact (h.saveAll d.changed).save t'

/-- A deletion is a step of the map that the store holds, or changes nothing. -/
theorem executeDelete_step {condition : Option Condition} (h : Holds c tables)
    (hfits : c.FitsMemory) :
    ∃ tables', Holds ((Statement.delete name condition).execute c).2 tables' ∧
      tables.Step tables' := by
  rcases @executeDelete_cases c tables name condition h hfits with
    ⟨f, hfails⟩ | ⟨t, t', d, c', hfind, hdelete, hexecute, hholds⟩
  · rw [hfails]
    exact ⟨tables, h, .stay⟩
  · rw [hexecute]
    exact ⟨_, hholds, .delete (tables.find_self hfind) hdelete⟩

/-- A deletion that the tables admit is executed with what comes of it. -/
theorem Holds.executeDelete {t t' : Table} {d : Deletion} {condition : Option Condition}
    (h : Holds c tables) (hfits : c.FitsMemory) (hfind : tables.find t.name = some t)
    (hdelete : t.delete condition tables.read = .ok (t', d)) :
    ∃ c', (Statement.delete t.name condition).execute c =
        (.ok (.deleted d.removed.length d.blocked), c') ∧
      Holds c' (if d.removed.isEmpty then tables.saveAll d.changed
        else (tables.saveAll d.changed).save t') := by
  have hrequire : require c t.name = .ok t :=
    require_eq_ok_iff.mpr (by rw [h.load_eq_find hfits, hfind])
  rcases @executeDelete_cases c tables t.name condition h hfits with
    ⟨f, hfails⟩ | ⟨u, u', d', c', hu, hdelete', hexecute, hholds⟩
  · have hresult : (do
        let u ← require c t.name
        u.delete condition (Catalog.load c)) = .ok (t', d) := by
      rw [hrequire, h.load_eq_read hfits]
      exact hdelete
    rw [Statement.execute_delete, Statement.executeDelete, hresult] at hfails
    cases hfails
  · obtain rfl := Option.some.inj (hfind.symm.trans hu)
    obtain ⟨rfl, rfl⟩ := Prod.mk.inj (Except.ok.inj (hdelete.symm.trans hdelete'))
    exact ⟨c', hexecute, hholds⟩

/-- Every statement takes a step, whether it succeeds or fails. -/
theorem execute_step (h : Holds c tables) (hfits : c.FitsMemory) (s : Statement) :
    ∃ tables', Holds (s.execute c).2 tables' ∧ tables.Step tables' := by
  cases s with
  | createTable name columns constraints => exact executeCreate_step h hfits
  | dropTable name => exact executeDrop_step h hfits
  | describe name =>
    rw [Statement.execute_describe]
    exact ⟨tables, h, .stay⟩
  | showTables =>
    rw [Statement.execute_showTables]
    exact ⟨tables, h, .stay⟩
  | insert table columns values => exact executeInsert_step h hfits
  | delete table condition => exact executeDelete_step h hfits
  | select projection sources condition =>
    rw [Statement.execute_select]
    exact ⟨tables, h, .stay⟩

end TableStore

end RelationalStore
