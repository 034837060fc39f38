import RelationalStore.Proofs.Integrity.Definition
import RelationalStore.Proofs.Integrity.Deletion
import RelationalStore.Proofs.Statement.Reachable

/-!
# Integrity over runs of statements

Every statement keeps the tables sound, whether it succeeds or fails, and so they are sound
in every reachable catalog. Four consequences are drawn: stored rows fit their columns,
primary keys are unique, the lists of referencing tables are exact together with the
foreign keys they speak of, and no reference without NULL dangles.
-/

namespace RelationalStore

/-- Every step keeps all tables sound. -/
theorem TableMap.Sound.step {tables tables' : TableMap} (h : tables.Sound)
    (hstep : tables.Step tables') : tables'.Sound := by
  cases hstep with
  | stay => exact h
  | create hnew hdefine => exact h.create hnew hdefine
  | drop hfind hunreferenced => exact h.drop hfind hunreferenced
  | insert hfind hinsert => exact h.insert hfind hinsert
  | delete hfind hdelete => exact h.delete hfind hdelete

namespace TableStore

variable {c : TableStore Memory} {name : String} {t : Table}

/-- A reachable catalog holds sound tables. -/
theorem Reachable.sound (h : Reachable c) : ∃ tables, Holds c tables ∧ tables.Sound :=
  h.preserves TableMap.sound_empty fun _ _ hsound hstep => hsound.step hstep

/-- From a store that fits in memory exactly the tables of its map are loaded. -/
theorem Holds.load_eq_some_iff {tables : TableMap} (h : Holds c tables) (hfits : c.FitsMemory) :
    Catalog.load c name = .ok (some t) ↔ tables.find name = some t := by
  rw [h.load_eq_find hfits, Except.ok.injEq]

/-- Statements that fill two tables, the second of which references the first, and then
delete a row that is referenced. -/
def sampleStatements : List Statement :=
  [.createTable "team" [(ColumnDefinition.plain "id" .integer).asPrimaryKey] [],
    .createTable "player"
      [(ColumnDefinition.plain "id" .integer).asPrimaryKey, .plain "team" .integer]
      [.foreignKey ["team"] "team" ["id"]],
    .insert "team" none [.integer 1],
    .insert "team" none [.integer 2],
    .insert "player" none [.integer 7, .integer 1],
    .insert "player" none [.integer 8, .integer 2],
    .delete "team" (some (.columnIs "id" (.integer 2)))]

/-- The catalog that these statements make of the empty one. -/
def sample : TableStore Memory := run ⟨Memory.empty⟩ sampleStatements

/-- The foreign key between the two tables of the sample. -/
def sampleReference : ForeignKey := ⟨["team"], "team", ["id"], true⟩

/-- The second table of the sample, in which one reference has become NULL. -/
def samplePlayers : Table where
  name := "player"
  schema :=
    [{ Attribute.plain "id" .integer 0 true with table := "player" }.asPrimary,
      { Attribute.plain "team" .integer 0 true with
        table := "player", references := some ("team", "id") }]
  rows := [[.integer 7, .integer 1], [.integer 8, .null]]
  primaryKey := ["id"]
  foreignKeys := [sampleReference]
  referencedBy := SortedMap.empty

/-- The first table of the sample before the last statement, which deletes a row. -/
def sampleTeams : Table where
  name := "team"
  schema := [{ Attribute.plain "id" .integer 0 true with table := "team" }.asPrimary]
  rows := [[.integer 1], [.integer 2]]
  primaryKey := ["id"]
  foreignKeys := []
  referencedBy := NameSet.ofNames ["player"]

/-- The teams as they are kept in the sample. -/
def keptTeams : Table :=
  { sampleTeams with rows := [[.integer 1]] }

/-- The sample keeps the two tables as they are written here, and nothing else. -/
theorem sample_eq : sample = Catalog.save (Catalog.save ⟨Memory.empty⟩ keptTeams) samplePlayers := by
  decide +kernel

/-- What the statements of the sample store fits in memory after each of them. -/
theorem fitsMemory_sample : ∀ m ≤ sampleStatements.length,
    (run ⟨Memory.empty⟩ (sampleStatements.take m)).FitsMemory := by
  decide +kernel

/-- The sample comes about by statements that fit in memory. -/
theorem reachable_sample : Reachable sample :=
  Reachable.empty.run fitsMemory_sample

/-- The players are stored as they are written here. -/
theorem load_sample : Catalog.load sample "player" = .ok (some samplePlayers) := by
  rw [sample_eq]
  decide +kernel

/-- In a reachable catalog every binding is that of a table under its own name, whose
columns have different names and whose key columns are marked and admit no NULL. Each of
its rows has one value for each column, and the value passes the check of the column. -/
theorem Reachable.bindings_fit (h : Reachable c) {k : Key} {bytes : Bytes}
    (hbound : ByteStore.get c.store k = .ok (some bytes)) :
    ∃ t, k = keyOf t.name ∧ Catalog.load c t.name = .ok (some t) ∧
      (t.schema.map (·.name)).Nodup ∧
      (∀ a ∈ t.schema, a.primary = true ↔ a.name ∈ t.primaryKey) ∧
      (∀ column ∈ t.primaryKey, ∃ a ∈ t.schema, a.name = column ∧ a.nullable = false) ∧
      ∀ row ∈ t.rows, List.Forall₂ (fun a v => a.checkValue v = .ok ()) t.schema row := by
  obtain ⟨tables, hholds, hsound⟩ := h.sound
  have hget : c.store.index.bindings.get? k = some bytes := Except.ok.inj hbound
  obtain ⟨name, rfl⟩ := hholds.keys k (by rw [SortedMap.contains, hget, Option.isSome_some])
  have hfound : (tables.find name).map Binary.write = some bytes := hholds.forms name ▸ hget
  obtain ⟨t, hfind, _⟩ := Option.map_eq_some_iff.mp hfound
  obtain rfl := tables.named name t hfind
  have ht := hsound.sound t.name t hfind
  refine ⟨t, rfl, (hholds.load_eq_some_iff h.fitsMemory).mpr hfind, ht.distinct, ht.primary_iff,
    fun column hcolumn => ?_, ht.admits⟩
  obtain ⟨a, ha, rfl⟩ := ht.key_defined column hcolumn
  exact ⟨a, ha, rfl, ht.key_required a ha hcolumn⟩

/-- The bytes under the key of the players are those of a table that fits its columns. -/
theorem bindings_fit_sample : ∃ t, keyOf "player" = keyOf t.name ∧
    Catalog.load sample t.name = .ok (some t) ∧ (t.schema.map (·.name)).Nodup ∧
    (∀ a ∈ t.schema, a.primary = true ↔ a.name ∈ t.primaryKey) ∧
    (∀ column ∈ t.primaryKey, ∃ a ∈ t.schema, a.name = column ∧ a.nullable = false) ∧
    ∀ row ∈ t.rows, List.Forall₂ (fun a v => a.checkValue v = .ok ()) t.schema row := by
  have hbound : ByteStore.get sample.store (keyOf "player") =
      .ok (some (Binary.write samplePlayers)) := by
    rw [sample_eq]
    decide +kernel
  exact reachable_sample.bindings_fit hbound

/-- In a reachable catalog no primary key holds NULL, and no two rows of one table have
the same primary key. -/
theorem Reachable.keys_unique (h : Reachable c) (ht : Catalog.load c name = .ok (some t))
    (hkey : t.primaryKey ≠ []) :
    (∀ row ∈ t.rows, ∀ column ∈ t.primaryKey,
      ∃ v, t.schema.value? row column = some v ∧ v ≠ .null) ∧
    ∀ (i j : Nat) (row row' : Row), i ≠ j → t.rows[i]? = some row → t.rows[j]? = some row' →
      ¬ t.SameKey row row' := by
  obtain ⟨tables, hholds, hsound⟩ := h.sound
  have hfind := (hholds.load_eq_some_iff h.fitsMemory).mp ht
  have ht := hsound.sound name t hfind
  exact ⟨fun row hrow column hcolumn => ht.exists_key_value hrow hcolumn,
    fun i j row row' hij hi hj => ht.not_sameKey hkey hij hi hj⟩

/-- The two players have different keys. -/
theorem keys_unique_sample : ¬ samplePlayers.SameKey [.integer 7, .integer 1] [.integer 8, .null] :=
  (reachable_sample.keys_unique load_sample (List.cons_ne_nil _ _)).2 0 1 _ _
    (by decide) rfl rfl

/-- In a reachable catalog each table lists exactly the tables that have a foreign key to
it. Each foreign key leads to another table that is stored. Its columns are paired with
exactly the primary key columns of that table, of the same types, and it admits NULL when
all its columns do. -/
theorem Reachable.references_exact (h : Reachable c) (ht : Catalog.load c name = .ok (some t)) :
    (∀ other, t.referencedBy.contains other = true ↔
      ∃ u, Catalog.load c other = .ok (some u) ∧ ∃ fk ∈ u.foreignKeys, fk.table = name) ∧
    ∀ fk ∈ t.foreignKeys, fk.table ≠ name ∧
      ∃ target, Catalog.load c fk.table = .ok (some target) ∧
        fk.columns.length = fk.refColumns.length ∧
        (∀ column, column ∈ fk.refColumns ↔ column ∈ target.primaryKey) ∧
        List.Forall₂ (fun column refColumn => ∃ a ∈ t.schema, ∃ b ∈ target.schema,
          a.name = column ∧ b.name = refColumn ∧ a.sameType b = true) fk.columns fk.refColumns ∧
        (fk.nullable = true ↔
          ∀ column ∈ fk.columns, ∃ a ∈ t.schema, a.name = column ∧ a.nullable = true) := by
  obtain ⟨tables, hholds, hsound⟩ := h.sound
  have hload {n : String} {u : Table} :
      Catalog.load c n = .ok (some u) ↔ tables.find n = some u :=
    hholds.load_eq_some_iff h.fitsMemory
  have hfind := hload.mp ht
  refine ⟨fun other => ?_, fun fk hfk => ?_⟩
  · simp only [hload]
    exact hsound.listed name t hfind other
  · obtain ⟨hother, target, htarget, hfits⟩ := hsound.targets name t hfind fk hfk
    exact ⟨hother, target, hload.mpr htarget, hfits.length_eq, hfits.covers, hfits.pairs,
      (hsound.sound name t hfind).nullable_iff fk hfk⟩

/-- The teams list the players as referencing them. -/
theorem references_exact_sample : ∃ target, Catalog.load sample "team" = .ok (some target) ∧
    target.referencedBy.contains "player" = true := by
  have hfk : sampleReference ∈ samplePlayers.foreignKeys := List.mem_cons_self
  obtain ⟨_, target, htarget, _⟩ :=
    (reachable_sample.references_exact load_sample).2 sampleReference hfk
  have hlisted := ((reachable_sample.references_exact htarget).1 "player").mpr
    ⟨samplePlayers, load_sample, sampleReference, hfk, rfl⟩
  exact ⟨target, htarget, hlisted⟩

/-- In a reachable catalog a row with no NULL in any foreign key is linked, through each
foreign key with columns, to a row of the table that the key references. -/
theorem Reachable.references_kept (h : Reachable c) (ht : Catalog.load c name = .ok (some t))
    {row : Row} (hrow : row ∈ t.rows)
    (hdefinite : ∀ fk ∈ t.foreignKeys, ∀ column ∈ fk.columns,
      t.schema.value? row column ≠ some .null)
    {fk : ForeignKey} (hfk : fk ∈ t.foreignKeys) (hcolumns : fk.columns ≠ []) :
    ∃ target, Catalog.load c fk.table = .ok (some target) ∧
      ∃ found ∈ target.rows, fk.Links t.schema row target.schema found := by
  obtain ⟨tables, hholds, hsound⟩ := h.sound
  have hfind := (hholds.load_eq_some_iff h.fitsMemory).mp ht
  obtain ⟨target, htarget, hfound⟩ :=
    hsound.linked name t hfind row hrow hdefinite fk hfk hcolumns
  exact ⟨target, (hholds.load_eq_some_iff h.fitsMemory).mpr htarget, hfound⟩

/-- The player whose team is not NULL is linked to a team. -/
theorem references_kept_sample : ∃ target, Catalog.load sample "team" = .ok (some target) ∧
    ∃ found ∈ target.rows, sampleReference.Links samplePlayers.schema
      [.integer 7, .integer 1] target.schema found := by
  have hrow : [.integer 7, .integer 1] ∈ samplePlayers.rows := by decide
  have hfk : sampleReference ∈ samplePlayers.foreignKeys := List.mem_cons_self
  have hlinked := reachable_sample.references_kept load_sample hrow (by decide) hfk
    (List.cons_ne_nil _ _)
  exact hlinked

end TableStore

end RelationalStore
