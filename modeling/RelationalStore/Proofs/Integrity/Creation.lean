import RelationalStore.Proofs.Integrity.Refusals
import RelationalStore.Proofs.Table.Definable

/-!
# Definitions that are accepted

Over reachable tables a definition is accepted exactly if its name is free and it keeps to the
rules. It stores the table that it describes and enters its name in the tables that it
references, and it writes nothing else.
-/

namespace RelationalStore

/-- Over sound tables a definition makes a table exactly if it keeps to the rules. -/
theorem TableMap.Sound.define_eq_ok_iff {tables : TableMap} (h : tables.Sound) {name : String}
    {columns : List ColumnDefinition} {constraints : List TableConstraint} {t : Table} :
    (∃ entered, Table.define name columns constraints tables.read = .ok (t, entered)) ↔
      Table.Definable tables.read name columns constraints ∧
        t = Table.defined name columns constraints := by
  refine Table.define_eq_ok_iff fun n u hu => ?_
  have hfind := read_eq_some_iff.mp hu
  exact ⟨tables.named n u hfind, (h.sound n u hfind).distinct⟩

namespace TableStore

variable {c c' : TableStore Memory} {tables : TableMap} {name : String}
  {columns : List ColumnDefinition} {constraints : List TableConstraint} {outcome : Outcome}

/-- Over sound tables a definition under a free name succeeds if it keeps to the rules. -/
theorem Holds.exists_create (h : Holds c tables) (hfits : c.FitsMemory) (hsound : tables.Sound)
    (hnew : tables.find name = none)
    (hdefinable : Table.Definable tables.read name columns constraints) :
    ∃ c', (Statement.createTable name columns constraints).execute c =
      (.ok (.created name), c') := by
  obtain ⟨entered, hdefine⟩ := hsound.define_eq_ok_iff.mpr ⟨hdefinable, rfl⟩
  exact ⟨_, h.executeCreate hfits hnew hdefine⟩

/-- A definition that succeeds has kept to the rules. The table that it describes is stored, and
its name is entered in the tables that it references. -/
theorem Holds.create_eq_ok (h : Holds c tables) (hfits : c.FitsMemory) (hsound : tables.Sound)
    (hcreate : (Statement.createTable name columns constraints).execute c = (.ok outcome, c')) :
    outcome = .created name ∧ tables.find name = none ∧
      Table.Definable tables.read name columns constraints ∧
      Holds c' ((tables.enter name
        ((Table.defined name columns constraints).foreignKeys.map (·.table))).save
          (Table.defined name columns constraints)) := by
  rcases @executeCreate_cases c tables name columns constraints h hfits with
    ⟨f, hfails⟩ | ⟨t, entered, c₁, hnew, hdefine, hdone, hstored⟩
  · rw [hfails] at hcreate
    cases hcreate
  · rw [hdone] at hcreate
    obtain ⟨houtcome, rfl⟩ := Prod.mk.inj hcreate
    obtain ⟨hdefinable, rfl⟩ := hsound.define_eq_ok_iff.mp ⟨entered, hdefine⟩
    obtain ⟨_, targets, htargets, rfl⟩ := Table.define_eq_ok
      (fun n u hu => tables.named n u (TableMap.read_eq_some_iff.mp hu)) hdefine
    rw [TableMap.saveAll_entered htargets] at hstored
    exact ⟨(Except.ok.inj houtcome).symm, hnew, hdefinable, hstored⟩

/-- In a reachable catalog a definition succeeds exactly if its name is free and it keeps to the
rules. It then stores the table that it describes, which has no rows. Each table that is
referenced is there and lists the new name besides what it has listed, and what is kept under
every other key is left. -/
theorem Reachable.create_accepted (h : Reachable c) (name : String)
    (columns : List ColumnDefinition) (constraints : List TableConstraint) :
    ((∃ outcome, ((Statement.createTable name columns constraints).execute c).1 = .ok outcome) ↔
      Catalog.has c name = false ∧
        Table.Definable (Catalog.load c) name columns constraints) ∧
    ∀ outcome c', (Statement.createTable name columns constraints).execute c = (.ok outcome, c') →
      outcome = .created name ∧
      ByteStore.get c'.store (keyOf name) =
        .ok (some (Binary.write (Table.defined name columns constraints))) ∧
      (∀ fk ∈ (Table.defined name columns constraints).foreignKeys,
        ∃ u, Catalog.load c fk.table = .ok (some u) ∧
          ByteStore.get c'.store (keyOf fk.table) =
            .ok (some (Binary.write (u.withReferrer name)))) ∧
      ∀ k, k ≠ keyOf name →
        (∀ fk ∈ (Table.defined name columns constraints).foreignKeys, k ≠ keyOf fk.table) →
        ByteStore.get c'.store k = ByteStore.get c.store k := by
  obtain ⟨tables, hholds, hsound⟩ := h.sound
  have hhas : Catalog.has c name = false ↔ tables.find name = none := by
    rw [← Bool.not_eq_true, hholds.has_iff, ← Option.isSome_iff_exists,
      Option.not_isSome_iff_eq_none]
  rw [hhas, hholds.load_eq_read h.fitsMemory]
  refine ⟨⟨?_, ?_⟩, fun outcome c' hcreate => ?_⟩
  · rintro ⟨outcome, hcreate⟩
    have hpair : (Statement.createTable name columns constraints).execute c = (.ok outcome, _) :=
      Prod.ext hcreate rfl
    obtain ⟨_, hnew, hdefinable, _⟩ := hholds.create_eq_ok h.fitsMemory hsound hpair
    exact ⟨hnew, hdefinable⟩
  · rintro ⟨hnew, hdefinable⟩
    obtain ⟨c', hcreate⟩ := hholds.exists_create h.fitsMemory hsound hnew hdefinable
    exact ⟨.created name, by rw [hcreate]⟩
  · obtain ⟨houtcome, hnew, hdefinable, hstored⟩ :=
      hholds.create_eq_ok h.fitsMemory hsound hcreate
    have hname : (Table.defined name columns constraints).name = name := rfl
    refine ⟨houtcome, ?_, fun fk hfk => ?_, fun k hk hothers => ?_⟩
    · rw [hstored.get_keyOf, TableMap.find_save, hname, if_pos rfl]
      rfl
    · obtain ⟨u, hu⟩ := hdefinable.exists_target hfk
      have hfind := TableMap.read_eq_some_iff.mp hu
      have hne : fk.table ≠ name := by
        intro htable
        rw [htable, hnew] at hfind
        cases hfind
      refine ⟨u, hu, ?_⟩
      rw [hstored.get_keyOf, TableMap.find_save, hname, if_neg hne, TableMap.enter,
        TableMap.find_relist, hfind, Option.map_some, Option.map_some,
        if_pos (List.mem_map_of_mem hfk)]
      rfl
    · refine hholds.get_congr hstored fun other hother => ?_
      have hne : other ≠ name := fun heq => hk (heq ▸ hother)
      have hfree : other ∉ (Table.defined name columns constraints).foreignKeys.map (·.table) := by
        intro hmem
        obtain ⟨fk, hfk, rfl⟩ := List.mem_map.mp hmem
        exact hothers fk hfk hother
      rw [TableMap.find_save, hname, if_neg hne, TableMap.enter, TableMap.find_relist]
      simp only [hfree, if_false]
      exact Option.map_id'

/-- Columns of a table of transfers, the first of which admits NULL. -/
def transferColumns : List ColumnDefinition :=
  [.plain "from" .integer, (ColumnDefinition.plain "to" .integer).notNull]

/-- Both columns reference the teams of the sample, and the second one is named twice in the
primary key. -/
def transferConstraints : List TableConstraint :=
  [.foreignKey ["from"] "team" ["id"], .primaryKey ["to", "to"],
    .foreignKey ["to"] "team" ["id"]]

/-- The definition keeps to the rules, and the table that it describes is stored. One that leaves
the key column of its target out does not. -/
theorem create_accepted_sample :
    Table.Definable (Catalog.load sample) "transfer" transferColumns transferConstraints ∧
      ¬ Table.Definable (Catalog.load sample) "transfer" transferColumns
        [.foreignKey [] "team" []] ∧
      ∃ c', (Statement.createTable "transfer" transferColumns transferConstraints).execute sample =
          (.ok (.created "transfer"), c') ∧
        ByteStore.get c'.store (keyOf "transfer") = .ok (some (Binary.write
          (Table.defined "transfer" transferColumns transferConstraints))) := by
  have hcreated : ((Statement.createTable "transfer" transferColumns
      transferConstraints).execute sample).1 = .ok (.created "transfer") := by
    rw [sample_eq]
    decide +kernel
  have hrefused : ((Statement.createTable "transfer" transferColumns
      [.foreignKey [] "team" []]).execute sample).1 =
        .error (.error (.referencePartialKey "team")) := by
    rw [sample_eq]
    decide +kernel
  have hfree : Catalog.has sample "transfer" = false := by
    rw [sample_eq]
    decide +kernel
  obtain ⟨hiff, hdone⟩ :=
    reachable_sample.create_accepted "transfer" transferColumns transferConstraints
  refine ⟨(hiff.mp ⟨_, hcreated⟩).2, fun hdefinable => ?_, ?_⟩
  · obtain ⟨outcome, houtcome⟩ := (reachable_sample.create_accepted "transfer" transferColumns
      [.foreignKey [] "team" []]).1.mpr ⟨hfree, hdefinable⟩
    rw [hrefused] at houtcome
    cases houtcome
  · generalize (Statement.createTable "transfer" transferColumns
      transferConstraints).execute sample = done at hcreated hdone
    obtain ⟨outcome, c'⟩ := done
    obtain rfl : outcome = .ok (.created "transfer") := hcreated
    obtain ⟨_, hstored, _⟩ := hdone _ c' rfl
    exact ⟨c', rfl, hstored⟩

end TableStore

end RelationalStore
