import RelationalStore.Proofs.Integrity.Blocking

/-!
# What a deletion does to other tables

A deletion changes another table only in rows that were linked to a row that has gone, and
there only in the columns of foreign keys that admit NULL. It stores every table that it has
changed, so that each one is found as the rows that have gone have left it, and no row is
linked to any of them afterwards.
-/

namespace RelationalStore

namespace TableMap

variable {tables : TableMap} {t t' : Table} {d : Deletion} {name : String}
  {condition : Option Condition}

/-- After a deletion from a table with a primary key, every other table is found as the rows
that have gone have left it. -/
theorem Sound.find_deleted (h : tables.Sound) (hfind : tables.find t.name = some t)
    (hne : t.primaryKey ≠ []) (hdelete : t.delete condition tables.read = .ok (t', d))
    (hname : name ≠ t.name) :
    (if d.removed.isEmpty then tables.saveAll d.changed
      else (tables.saveAll d.changed).save t').find name =
      (tables.find name).map fun u => u.after t (t.rowsAt d.removed) := by
  obtain ⟨rfl, referrers, hreferrers, hfollows⟩ := Table.delete_eq_ok hdelete
  obtain ⟨chosen, others, _, hothers, hdecides⟩ := Table.delete_decides hne hdelete
  obtain rfl := Except.ok.inj (hreferrers.symm.trans hothers)
  obtain ⟨hnodup, hkept, hall⟩ := h.referrers_eq_ok hfind hreferrers
  have hrefers : ∀ r ∈ referrers, r.Referrer t := fun r hr => h.referrer hfind (hkept r hr).1
  have hd := hfollows hrefers
  have hself : ∀ r ∈ referrers, r.name ≠ t.name := fun r hr hsame =>
    h.not_references_self (hsame ▸ (hkept r hr).2)
  rw [find_stored hfind (ne_of_mem_changed hd hself), if_neg hname]
  by_cases hlooked : ∃ r ∈ referrers, r.name = name
  · obtain ⟨r, hr, rfl⟩ := hlooked
    obtain ⟨x, hx, hfound, hlapsed⟩ := find_saveAll_changed hd hnodup hr (hkept r hr).1
    -- of the tables that the deletion has ended with, this is the one that `r` has become
    have hmem : x.1 ∈ referrers.map fun u => u.after t (t.rowsAt d.removed) :=
      (hdecides hrefers).left ▸ List.mem_map_of_mem hx
    obtain ⟨s, hs, hafter⟩ := List.mem_map.mp hmem
    have hsame : s.name = r.name := by
      rw [← hlapsed.name_eq, ← hafter]
      rfl
    obtain rfl := List.inj_on_of_nodup_map hnodup hs hr hsame
    rw [hfound, (hkept s hs).1, Option.map_some, hafter]
  · have hother : ∀ r ∈ referrers, r.name ≠ name := fun r hr hsame => hlooked ⟨r, hr, hsame⟩
    rw [find_saveAll_of_forall_ne (ne_of_mem_changed hd hother)]
    cases hu : tables.find name with
    | none => rfl
    | some u =>
      have hfree : ∀ fk ∈ u.foreignKeys, fk.table ≠ t.name := fun fk hfk htable =>
        hother u (hall name u hne hu ⟨u, hu, fk, hfk, htable⟩) (tables.named name u hu)
      rw [Option.map_some, Table.after_eq_self hfree]

/-- After a deletion from a table with a primary key, no row is linked to one that has
gone. -/
theorem Sound.not_links_deleted (h : tables.Sound) (hfind : tables.find t.name = some t)
    (hne : t.primaryKey ≠ []) {removed : List Nat} {tables' : TableMap}
    (hdeleted : tables.Deleted tables' t removed) {u' : Table}
    (hu' : tables'.find name = some u') {row' : Row} (hrow' : row' ∈ u'.rows) {fk : ForeignKey}
    (hfk : fk ∈ u'.foreignKeys) (htable : fk.table = t.name) {found : Row}
    (hfound : found ∈ t.rowsAt removed) : ¬ fk.Links u'.schema row' t.schema found := by
  obtain ⟨u, hu, hsame⟩ := (hdeleted.sameButRows hfind).back name u' hu'
  have hschema : u'.schema = u.schema := by rw [hsame]
  have hfk : fk ∈ u.foreignKeys := by
    rw [hsame] at hfk
    exact hfk
  obtain ⟨_, _, _, hunlinked⟩ := hdeleted.exists_row h hfind hu hu' hrow'
  have hcolumns : fk.columns ≠ [] :=
    ((h.referrer hfind hu).fits fk hfk htable).columns_ne_nil_iff.mpr hne
  obtain ⟨i, hi, hat⟩ := List.mem_filterMap.mp hfound
  rw [hschema]
  exact hunlinked fk hfk htable hcolumns i hi found hat

end TableMap

namespace TableStore

variable {c c' : TableStore Memory} {name : String} {t : Table} {condition : Option Condition}

/-- In a reachable catalog, a deletion from a table with a primary key takes out rows at some
positions, and leaves the other tables as they are but for cells that become NULL. Such a
cell stands in a column of a foreign key that admits NULL and that linked its row, before the
statement, to a row that has gone. Afterwards no row of any table is linked to such a row. -/
theorem Reachable.delete_others (h : Reachable c) (ht : Catalog.load c name = .ok (some t))
    (hkey : t.primaryKey ≠ []) {deleted blocked : Nat}
    (hdelete : (Statement.delete name condition).execute c =
      (.ok (.deleted deleted blocked), c')) :
    ∃ (removed : List Nat) (after : TableMap),
      removed.Pairwise (· < ·) ∧ (∀ i ∈ removed, i < t.rows.length) ∧ removed.length = deleted ∧
      Holds c' after ∧ after.find name = some (t.withoutRows removed) ∧
      (∀ other, other ≠ name → Catalog.load c other = .ok none → after.find other = none) ∧
      (∀ other u, other ≠ name → Catalog.load c other = .ok (some u) →
        ∃ u', after.find other = some u' ∧ u' = { u with rows := u'.rows } ∧
          List.Forall₂ (fun row row' => row'.length = row.length ∧ ∀ i : Nat,
            row'[i]? = row[i]? ∨ row'[i]? = some .null ∧ ∃ a, u.schema[i]? = some a ∧
              ∃ fk ∈ u.foreignKeys, fk.table = name ∧ fk.nullable = true ∧
                a.name ∈ fk.columns ∧
                ∃ found ∈ t.rowsAt removed, fk.Links u.schema row t.schema found)
            u.rows u'.rows) ∧
      ∀ other u', after.find other = some u' → ∀ row' ∈ u'.rows, ∀ fk ∈ u'.foreignKeys,
        fk.table = name → ∀ found ∈ t.rowsAt removed,
          ¬ fk.Links u'.schema row' t.schema found := by
  obtain ⟨tables, hholds, hsound⟩ := h.sound
  have hfits := h.fitsMemory
  obtain ⟨u, t', d, hu, hdeleted, houtcome, hnext⟩ := executeDelete_eq_ok hholds hfits hdelete
  have hfind := (hholds.load_eq_some_iff hfits).mp ht
  obtain rfl := Option.some.inj (hfind.symm.trans hu)
  obtain rfl := tables.named name t hfind
  obtain ⟨rfl, rfl⟩ := Outcome.deleted.inj houtcome
  obtain ⟨chosen, _, hchosen, hd, _⟩ := hsound.exists_chosen hfind hkey hdeleted
  have heffect := hsound.deleted hfind hdeleted
  have hothers {other : String} (hother : other ≠ t.name) :=
    hsound.find_deleted hfind hkey hdeleted hother
  refine ⟨d.removed, _, (Condition.pairwise_of_matching hchosen).sublist hd.removed, ?_, rfl,
    hnext, heffect.shrunk, fun other hother hnone => ?_, fun other u hother hload => ?_, ?_⟩
  · intro i hi
    obtain ⟨entry, hentry, rfl⟩ := List.mem_map.mp (hd.removed.subset hi)
    have hrow := Condition.getElem?_of_mem_matching hchosen hentry
    exact (List.getElem?_eq_some_iff.mp hrow).1
  · have hnone : tables.find other = none := by
      rw [hholds.load_eq_find hfits] at hnone
      exact Except.ok.inj hnone
    rw [hothers hother, hnone, Option.map_none]
  · have hu := (hholds.load_eq_some_iff hfits).mp hload
    refine ⟨u.after t (t.rowsAt d.removed), by rw [hothers hother, hu, Option.map_some], rfl, ?_⟩
    refine (u.forall₂_rows_after t (t.rowsAt d.removed)).imp fun row row' hlapsed => ?_
    refine ⟨hlapsed.length_eq, fun i => (hlapsed.cell i).imp_right ?_⟩
    rintro ⟨hnull, a, ha, found, hfound, fk, hfk, ⟨htable, hnullable⟩, hcolumn, hlinks⟩
    exact ⟨hnull, a, ha, fk, hfk, htable, hnullable, hcolumn, found, hfound, hlinks⟩
  · intro other u' hu' row' hrow' fk hfk htable found hfound
    exact hsound.not_links_deleted hfind hkey heffect hu' hrow' hfk htable hfound

/-- The catalog of the sample before its last statement, which deletes a row. -/
def sampleBefore : TableStore Memory := run ⟨Memory.empty⟩ sampleStatements.dropLast

/-- Before the deletion each of the two players references a team. -/
theorem sampleBefore_eq : sampleBefore =
    Catalog.save (Catalog.save ⟨Memory.empty⟩ sampleTeams) { samplePlayers with
      rows := [[.integer 7, .integer 1], [.integer 8, .integer 2]] } := by
  decide +kernel

/-- That catalog comes about by statements that fit in memory, as the sample does. -/
theorem reachable_sampleBefore : Reachable sampleBefore := by
  refine Reachable.empty.run fun m hm => ?_
  have hlength : m ≤ sampleStatements.length - 1 := by rwa [List.length_dropLast] at hm
  rw [List.dropLast_eq_take, List.take_take, min_eq_left hlength]
  exact fitsMemory_sample m (by omega)

/-- The two tables are stored as they are written here. -/
theorem load_sampleBefore :
    Catalog.load sampleBefore "team" = .ok (some sampleTeams) ∧
      Catalog.load sampleBefore "player" = .ok (some { samplePlayers with
        rows := [[.integer 7, .integer 1], [.integer 8, .integer 2]] }) := by
  rw [sampleBefore_eq]
  decide +kernel

/-- In the sample one row has been removed, and no row of the referencing table, which is
otherwise as it was, is linked to it. -/
theorem delete_others_sample :
    ∃ (removed : List Nat) (rows : List Row), removed.length = 1 ∧
      ByteStore.get sample.store (keyOf "player") =
        .ok (some (Binary.write { samplePlayers with rows := rows })) ∧
      ∀ row ∈ rows, ∀ found ∈ sampleTeams.rowsAt removed,
        ¬ sampleReference.Links samplePlayers.schema row sampleTeams.schema found := by
  obtain ⟨hteams, hplayers⟩ := load_sampleBefore
  have hdelete : (Statement.delete "team" (some (.columnIs "id" (.integer 2)))).execute
      sampleBefore = (.ok (.deleted 1 0), sample) := by
    rw [sampleBefore_eq, sample_eq]
    decide +kernel
  obtain ⟨removed, after, _, _, hcount, hholds, _, _, hothers, hgone⟩ :=
    reachable_sampleBefore.delete_others hteams (List.cons_ne_nil _ _) hdelete
  obtain ⟨u', hu', hsame, _⟩ := hothers "player" _ (by decide) hplayers
  have hform := hholds.forms "player"
  rw [hu', hsame, Option.map_some] at hform
  refine ⟨removed, u'.rows, hcount, congrArg Except.ok hform, fun row hrow => ?_⟩
  have hrest := hgone "player" u' hu' row hrow sampleReference
  rw [hsame] at hrest
  exact hrest List.mem_cons_self rfl

end TableStore

end RelationalStore
