import RelationalStore.Proofs.Integrity.Cascades
import RelationalStore.Proofs.Integrity.Refusals
import RelationalStore.Proofs.Table.Overlap

/-!
# Cascades through foreign keys with columns in common

In a reachable catalog the cascade of a row clears the references to it in another table one
foreign key after another. All of them are cleared if no two have some but not all columns in
common. Otherwise a column may keep its value although it has referenced the row, and the order
in which the foreign keys are defined decides which one does.
-/

namespace RelationalStore

namespace Table

variable {u t : Table} {fks : List ForeignKey}

/-- A table is sound in whatever order its foreign keys stand. -/
theorem Sound.of_perm (h : u.Sound) (hperm : fks.Perm u.foreignKeys) :
    Sound { u with foreignKeys := fks } :=
  { h with nullable_iff := fun fk hfk => h.nullable_iff fk (hperm.mem_iff.mp hfk) }

/-- The foreign keys of a table fit their target in whatever order they stand. -/
theorem Referrer.of_perm (h : u.Referrer t) (hperm : fks.Perm u.foreignKeys) :
    Referrer { u with foreignKeys := fks } t :=
  ⟨h.distinct, fun fk hfk => h.fits fk (hperm.mem_iff.mp hfk)⟩

end Table

namespace TableStore

variable {c : TableStore Memory} {source name : String} {u t : Table} {found : Row}

/-- In a reachable catalog the cascade of a row clears, in each row of another table, the columns
of the foreign keys that admit NULL and link the row, but for those which have lost a column to
an earlier one: of such a foreign key only the columns become NULL that others have cleared, and
there is at least one. Where foreign keys that link one row have all columns in common or none,
all of their columns become NULL, and the order of the foreign keys does not matter. -/
theorem Reachable.cascade_clears (h : Reachable c)
    (hu : Catalog.load c source = .ok (some u)) (ht : Catalog.load c name = .ok (some t))
    (hne : t.primaryKey ≠ []) (hfound : found ∈ t.rows) :
    ∃ key u' n, t.cells found t.primaryKey = .ok key ∧
      u.cascadeNull name key = .ok (u', n) ∧
      u' = { u with rows := u.rows.map fun row =>
        u.schema.clear (u.clearedFor t found row) row } ∧
      (∀ row ∈ u.rows, ∀ fk ∈ u.foreignKeys, fk.table = name → fk.nullable = true →
        fk.Links u.schema row t.schema found →
        (∃ column ∈ fk.columns, column ∈ u.clearedFor t found row) ∧
        ∀ column ∈ fk.columns,
          u.schema.value? (u.schema.clear (u.clearedFor t found row) row) column = some .null ↔
            column ∈ u.clearedFor t found row) ∧
      ((∀ row ∈ u.rows, u.Apart t found row) →
        (∀ row ∈ u.rows, ∀ fk ∈ u.foreignKeys, fk.table = name → fk.nullable = true →
          fk.Links u.schema row t.schema found → ∀ column ∈ fk.columns,
            u.schema.value? (u.schema.clear (u.clearedFor t found row) row) column =
              some .null) ∧
        ∀ fks : List ForeignKey, fks.Perm u.foreignKeys →
          ∃ n', Table.cascadeNull { u with foreignKeys := fks } name key =
            .ok ({ u' with foreignKeys := fks }, n')) := by
  obtain ⟨tables, hholds, hsound⟩ := h.sound
  have hfindu := (hholds.load_eq_some_iff h.fitsMemory).mp hu
  have hfind := (hholds.load_eq_some_iff h.fitsMemory).mp ht
  obtain rfl := tables.named name t hfind
  have hsoundu := hsound.sound source u hfindu
  have hsoundt := hsound.sound t.name t hfind
  have hrefers : u.Referrer t := hsound.referrer hfind hfindu
  have hadmits := hsoundt.admits found hfound
  obtain ⟨key, hkey⟩ := Table.exists_cells hadmits hsoundt.key_defined
  obtain ⟨⟨u', n⟩, hcascade⟩ := Table.exists_cascadeNull hsoundu hrefers hsoundt hne hadmits hkey
  have hcleared := Table.cascadeNull_eq_clear hrefers hkey hcascade
  obtain ⟨_, _, hunlinked⟩ := Table.cascadeNull_unlinked hrefers hne hkey hcascade
  refine ⟨key, u', n, hkey, hcascade, hcleared, fun row hrow fk hfk htable hnullable hlinks =>
    ⟨?_, fun column hcolumn => Table.value?_clearedFor_eq_null_iff hlinks hcolumn⟩,
    fun happart => ⟨?_, fun fks hperm => ?_⟩⟩
  · -- the foreign key does not link the row any more
    have hfree := hunlinked fk hfk htable hnullable
    rw [Table.Unlinked, hcleared] at hfree
    have hnone := hfree _ (List.mem_map_of_mem hrow)
    simp only [ForeignKey.links_clear_iff, not_and, not_forall, not_not] at hnone
    obtain ⟨column, hcolumn, hmem⟩ := hnone hlinks
    exact ⟨column, hcolumn, hmem⟩
  · intro row hrow fk hfk htable hnullable hlinks column hcolumn
    refine (Table.value?_clearedFor_eq_null_iff hlinks hcolumn).mpr ?_
    exact (happart row hrow).mem_clearing_iff.mpr
      ⟨fk, ForeignKey.mem_nullable_iff.mpr ⟨hfk, htable, hnullable⟩, hlinks, hcolumn⟩
  · have hrefers' := hrefers.of_perm hperm
    obtain ⟨⟨v, n'⟩, hcascade'⟩ := Table.exists_cascadeNull (hsoundu.of_perm hperm) hrefers'
      hsoundt hne hadmits hkey
    refine ⟨n', hcascade'.trans ?_⟩
    have hrows : (u.rows.map fun row => u.schema.clear
        (Table.clearedFor { u with foreignKeys := fks } t found row) row) = u'.rows := by
      rw [hcleared]
      exact List.map_congr_left fun row hrow => (happart row hrow).clear_perm hperm
    rw [Table.cascadeNull_eq_clear hrefers' hkey hcascade', hrows, hcleared]

/-- A catalog in which the one row of a table references a pair through two foreign keys that
share a column. All columns admit NULL. -/
def overlapping : TableStore Memory :=
  run ⟨Memory.empty⟩
    [.createTable "pair" [.plain "x" .integer, .plain "y" .integer] [.primaryKey ["x", "y"]],
      .createTable "link" [.plain "a" .integer, .plain "b" .integer, .plain "c" .integer]
        [.foreignKey ["a", "b"] "pair" ["x", "y"], .foreignKey ["b", "c"] "pair" ["x", "y"]],
      .insert "pair" none [.integer 1, .integer 1],
      .insert "link" none [.integer 1, .integer 1, .integer 1]]

/-- The table of the links in this catalog. -/
def overlappingLinks : Table where
  name := "link"
  schema :=
    [({ Attribute.plain "a" .integer 0 true with table := "link" }).referencing "pair" "x",
      ({ Attribute.plain "b" .integer 0 true with table := "link" }).referencing "pair" "x",
      ({ Attribute.plain "c" .integer 0 true with table := "link" }).referencing "pair" "y"]
  rows := [[.integer 1, .integer 1, .integer 1]]
  primaryKey := []
  foreignKeys := [⟨["a", "b"], "pair", ["x", "y"], true⟩, ⟨["b", "c"], "pair", ["x", "y"], true⟩]
  referencedBy := SortedMap.empty

/-- The pair that is referenced. -/
def overlappingPair : Row :=
  [.integer 1, .integer 1]

/-- This catalog comes about by statements that fit in memory. -/
theorem reachable_overlapping : Reachable overlapping :=
  Reachable.empty.run (by decide +kernel)

/-- The link and its pair are stored as they are written here. -/
theorem load_overlapping :
    Catalog.load overlapping "link" = .ok (some overlappingLinks) ∧
      Catalog.load overlapping "pair" = .ok (some (pairTable [overlappingPair])) := by
  decide +kernel

/-- The second foreign key of the link is passed over. In the sample, where there is only one
foreign key, all of its columns become NULL. -/
theorem cascade_clears_sample :
    (∃ key u' n, (pairTable [overlappingPair]).cells overlappingPair ["x", "y"] = .ok key ∧
      overlappingLinks.cascadeNull "pair" key = .ok (u', n) ∧
      u'.rows = [[.null, .null, .integer 1]]) ∧
    ∃ key u' n, Table.cascadeNull { samplePlayers with
        rows := [[.integer 7, .integer 1], [.integer 8, .integer 2]] } "team" key = .ok (u', n) ∧
      ∀ fks : List ForeignKey, fks.Perm [sampleReference] →
        ∃ n', Table.cascadeNull { samplePlayers with
            rows := [[.integer 7, .integer 1], [.integer 8, .integer 2]]
            foreignKeys := fks } "team" key =
          .ok ({ u' with foreignKeys := fks }, n') := by
  constructor
  · obtain ⟨key, u', n, hkey, hcascade, hcleared, _⟩ := reachable_overlapping.cascade_clears
      load_overlapping.1 load_overlapping.2 (List.cons_ne_nil _ _) List.mem_cons_self
    refine ⟨key, u', n, hkey, hcascade, ?_⟩
    rw [hcleared]
    decide
  · obtain ⟨hteams, hplayers⟩ := load_sampleBefore
    have hfound : [.integer 2] ∈ sampleTeams.rows := by decide
    obtain ⟨key, u', n, _, hcascade, _, _, happart⟩ :=
      reachable_sampleBefore.cascade_clears hplayers hteams (List.cons_ne_nil _ _) hfound
    refine ⟨key, u', n, hcascade, (happart fun row _ => ?_).2⟩
    -- with one foreign key there is nothing to compare
    rintro fk hfk fk' hfk' _ _ _
    obtain rfl := List.mem_singleton.mp (List.mem_of_mem_filter hfk)
    obtain rfl := List.mem_singleton.mp (List.mem_of_mem_filter hfk')
    exact List.Subset.refl _

/-- The row references the pair through the second foreign key, and yet a column of this one
keeps its value. With the foreign keys in the other order another column does. -/
theorem cascade_not_clearing :
    Reachable overlapping ∧
      Catalog.load overlapping "link" = .ok (some overlappingLinks) ∧
      Catalog.load overlapping "pair" = .ok (some (pairTable [overlappingPair])) ∧
      ForeignKey.Links ⟨["b", "c"], "pair", ["x", "y"], true⟩ overlappingLinks.schema
        [.integer 1, .integer 1, .integer 1] (pairTable []).schema overlappingPair ∧
      overlappingLinks.cascadeNull "pair" [("x", .integer 1), ("y", .integer 1)] =
        .ok ({ overlappingLinks with rows := [[.null, .null, .integer 1]] }, 1) ∧
      Table.cascadeNull { overlappingLinks with
          foreignKeys := overlappingLinks.foreignKeys.reverse }
          "pair" [("x", .integer 1), ("y", .integer 1)] =
        .ok ({ overlappingLinks with
          foreignKeys := overlappingLinks.foreignKeys.reverse
          rows := [[.integer 1, .null, .null]] }, 1) :=
  ⟨reachable_overlapping, load_overlapping.1, load_overlapping.2, by decide +kernel,
    by decide +kernel, by decide +kernel⟩

end TableStore

end RelationalStore
