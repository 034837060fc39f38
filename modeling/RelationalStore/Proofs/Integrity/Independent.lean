import RelationalStore.Proofs.Integrity.Acceptance
import RelationalStore.Proofs.Integrity.Restored

/-!
# Statements about tables that do not reference each other

An insertion into one table and a statement about the rows of another one may be executed in
either order if neither table references the other. They may still meet in a third table: a
deletion sets references to NULL in tables where the insertion looks for its targets. But an
insertion finds its targets by their primary keys, and these never become NULL. So each of the
two statements answers the same and stores the same tables whether the other one has been
executed or not, and no table is stored by both.
-/

namespace RelationalStore

/-- Rows that have lapsed are found by the same references to their primary keys. -/
theorem Table.Lapsed.exists_links_iff {P : String → Prop} {target target' : Table}
    (h : target.Lapsed P target') (htarget : target.Sound)
    (hnullable : ∀ a ∈ target.schema, P a.name → a.nullable = true) {fk : ForeignKey}
    {source : Schema} (hfits : fk.Fits source target) {row : Row} :
    (∃ found ∈ target'.rows, fk.Links source row target'.schema found) ↔
      ∃ found ∈ target.rows, fk.Links source row target.schema found := by
  have hkey {found found' : Row} (hlapsed : target.schema.Lapsed P found found') :
      ∀ column ∈ fk.refColumns,
        target.schema.value? found' column = target.schema.value? found column :=
    fun column hcolumn => htarget.value?_key_eq hnullable hlapsed ((hfits.covers column).mp hcolumn)
  rw [h.schema_eq]
  constructor
  · rintro ⟨found', hfound', hlinks⟩
    obtain ⟨found, hfound, hlapsed⟩ := h.rows.exists_left hfound'
    exact ⟨found, hfound, hlinks.congr (fun _ _ => rfl) fun column hcolumn =>
      (hkey hlapsed column hcolumn).symm⟩
  · rintro ⟨found, hfound, hlinks⟩
    obtain ⟨found', hfound', hlapsed⟩ := h.rows.exists_right hfound
    exact ⟨found', hfound', hlinks.congr (fun _ _ => rfl) (hkey hlapsed)⟩

/-- Which tables are looked at for references depends only on those that are listed. -/
theorem Table.readAll_congr {read read' : TableReader} {names : List String}
    (h : ∀ name ∈ names, read' name = read name) : readAll read' names = readAll read names := by
  induction names with
  | nil => rfl
  | cons name names ih =>
    rw [List.forall_mem_cons] at h
    rw [readAll, readAll, h.1, ih h.2]

/-- A deletion reads no other tables than those that reference the table. -/
theorem Table.delete_congr {t : Table} {condition : Option Condition} {read read' : TableReader}
    (h : ∀ name ∈ t.referencedBy.keys, read' name = read name) :
    t.delete condition read' = t.delete condition read := by
  unfold Table.delete Table.referrers
  rw [readAll_congr h]

namespace TableMap

open TableStore

variable {tables tables' : TableMap} {t : Table} {name other : String}
  {columns : Option (List String)} {values : List Value} {condition : Option Condition}

/-- What a statement answers, and the tables that it stores one after another. -/
abbrev Effect := Except Failure Outcome × List Table

/-- Wherever the tables are held, the statement has this effect. -/
def HasEffect (tables : TableMap) (s : Statement) (effect : Effect) : Prop :=
  ∀ c : TableStore Memory, Holds c tables → c.FitsMemory →
    (s.execute c).1 = effect.1 ∧ Holds (s.execute c).2 (tables.saveAll effect.2)

/-- The effect of a result: nothing is stored if there is none to go on with. -/
def effectOf {α : Type} (result : Except Failure α) (finish : α → Outcome × List Table) : Effect :=
  match result with
  | .error f => (.error f, [])
  | .ok a => (.ok (finish a).1, (finish a).2)

/-- The table of a name, as a statement asks for it. -/
def require (tables : TableMap) (name : String) : Except Failure Table :=
  match tables.find name with
  | some t => .ok t
  | none => .error (.error (.noSuchTable name))

/-- The effect of an insertion. -/
def insertEffect (tables : TableMap) (name : String) (columns : Option (List String))
    (values : List Value) : Effect :=
  effectOf
    (do let t ← tables.require name
        t.insert columns values tables.read)
    fun t => (.inserted 1, [t])

/-- The effect of a deletion. -/
def deleteEffect (tables : TableMap) (name : String) (condition : Option Condition) : Effect :=
  effectOf
    (do let t ← tables.require name
        t.delete condition tables.read)
    fun (t, d) => (.deleted d.removed.length d.blocked,
      if d.removed.isEmpty then d.changed else d.changed ++ [t])

/-- The last of several tables is saved after the others. -/
theorem saveAll_concat {stored : List Table} :
    tables.saveAll (stored ++ [t]) = (tables.saveAll stored).save t := by
  rw [saveAll, List.foldl_append]
  rfl

/-- A table that a statement requires is the one in the map that the catalog holds. -/
theorem require_eq {c : TableStore Memory} (h : Holds c tables) (hfits : c.FitsMemory) :
    Catalog.require c name = tables.require name := by
  rw [Catalog.require, h.load_eq_find hfits, require]
  cases tables.find name with
  | none => rfl
  | some t => rfl

/-- A table that is required is given exactly if it is found. -/
theorem require_eq_ok_iff : tables.require name = .ok t ↔ tables.find name = some t := by
  rw [require]
  cases tables.find name with
  | none => simp
  | some u => simp

/-- Wherever the tables are held, an insertion has the effect that is computed from the map. -/
theorem hasEffect_insert : tables.HasEffect (.insert name columns values)
    (tables.insertEffect name columns values) := by
  intro c h hfits
  rw [Statement.execute_insert, Statement.executeInsert, insertEffect, require_eq h hfits,
    h.load_eq_read hfits]
  cases (do let t ← tables.require name; t.insert columns values tables.read) with
  | error f => exact ⟨rfl, h⟩
  | ok t => exact ⟨rfl, h.save t⟩

/-- Wherever the tables are held, a deletion has the effect that is computed from the map. -/
theorem hasEffect_delete : tables.HasEffect (.delete name condition)
    (tables.deleteEffect name condition) := by
  intro c h hfits
  rw [Statement.execute_delete, Statement.executeDelete, deleteEffect, require_eq h hfits,
    h.load_eq_read hfits]
  cases (do let t ← tables.require name; t.delete condition tables.read) with
  | error f => exact ⟨rfl, h⟩
  | ok result =>
    obtain ⟨t, d⟩ := result
    refine ⟨rfl, ?_⟩
    simp only [Access.commit, effectOf]
    split
    · exact h.saveAll d.changed
    · rw [saveAll_concat]
      exact (h.saveAll d.changed).save t

/-- What is found after tables have been stored depends on what was found before. -/
theorem find_saveAll_congr {stored : List Table} (h : tables'.find name = tables.find name) :
    (tables'.saveAll stored).find name = (tables.saveAll stored).find name := by
  induction stored generalizing tables tables' with
  | nil => exact h
  | cons u stored ih =>
    refine ih ?_
    rw [find_save, find_save, h]

/-- Tables of different names may be stored in either order. -/
theorem saveAll_comm {stored stored' : List Table}
    (h : ∀ u ∈ stored, ∀ v ∈ stored', u.name ≠ v.name) :
    (tables.saveAll stored).saveAll stored' = (tables.saveAll stored').saveAll stored := by
  ext1
  funext name
  by_cases hmem : ∃ u ∈ stored, u.name = name
  · obtain ⟨u, hu, rfl⟩ := hmem
    have hothers : ∀ v ∈ stored', v.name ≠ u.name := fun v hv => (h u hu v hv).symm
    rw [find_saveAll_of_forall_ne hothers]
    exact (find_saveAll_congr (find_saveAll_of_forall_ne hothers)).symm
  · have hothers : ∀ u ∈ stored, u.name ≠ name := fun u hu hname => hmem ⟨u, hu, hname⟩
    rw [find_saveAll_of_forall_ne hothers]
    exact find_saveAll_congr (find_saveAll_of_forall_ne hothers)

/-- Statements commute if each has the same effect after the other one and they store
different tables. -/
theorem HasEffect.commute {s s' : Statement} {effect effect' : Effect}
    (hs : tables.HasEffect s effect) (hs' : tables.HasEffect s' effect')
    (hafter : (tables.saveAll effect'.2).HasEffect s effect)
    (hafter' : (tables.saveAll effect.2).HasEffect s' effect')
    (hdifferent : ∀ u ∈ effect.2, ∀ v ∈ effect'.2, u.name ≠ v.name)
    {c : TableStore Memory} (h : Holds c tables) (hfits : c.FitsMemory)
    (hfirst : (s.execute c).2.FitsMemory) (hfirst' : (s'.execute c).2.FitsMemory) :
    (s.execute (s'.execute c).2).1 = (s.execute c).1 ∧
      (s'.execute (s.execute c).2).1 = (s'.execute c).1 ∧
      ∀ k, ByteStore.get (s'.execute (s.execute c).2).2.store k =
        ByteStore.get (s.execute (s'.execute c).2).2.store k := by
  obtain ⟨hanswer, hholds⟩ := hs c h hfits
  obtain ⟨hanswer', hholds'⟩ := hs' c h hfits
  obtain ⟨hagain, hlast⟩ := hafter _ hholds' hfirst'
  obtain ⟨hagain', hlast'⟩ := hafter' _ hholds hfirst
  rw [saveAll_comm hdifferent] at hlast'
  exact ⟨hagain.trans hanswer.symm, hagain'.trans hanswer'.symm, hlast.get_eq hlast'⟩

/-- The tables are sound, and beside that of the name they are as they were but for references
to it that have become NULL. -/
structure LapsedBeside (tables tables' : TableMap) (name : String) : Prop where
  sound : tables'.Sound
  lapsed : ∀ other u, other ≠ name → tables.find other = some u →
    ∃ u', tables'.find other = some u' ∧ u.Lapsed (u.LapsesWith name) u'

/-- The targets of a table that does not reference the one that has changed are found by the
same rows as before. -/
theorem LapsedBeside.findsTarget_iff (h : tables.LapsedBeside tables' name)
    (hsound : tables.Sound) (hfind : tables.find other = some t)
    (hfree : ¬ tables.References other name) {row : Row} {fk : ForeignKey}
    (hfk : fk ∈ t.foreignKeys) :
    t.FindsTarget tables'.read row fk ↔ t.FindsTarget tables.read row fk := by
  obtain ⟨_, target, htarget, hfits⟩ := hsound.targets other t hfind fk hfk
  have hne : fk.table ≠ name := fun htable => hfree ⟨t, hfind, fk, hfk, htable⟩
  obtain ⟨target', htarget', hlapsed⟩ := h.lapsed fk.table target hne htarget
  have hthere := hsound.sound fk.table target htarget
  simp only [Table.FindsTarget, read_eq_some_iff, htarget, htarget', Option.some.injEq,
    exists_eq_left']
  exact hlapsed.exists_links_iff hthere (fun a ha => hthere.nullable_of_lapsesWith ha) hfits

/-- What an insertion stores is the table with one more row, if anything. -/
theorem Sound.stored_insert (h : tables.Sound) (name : String) (columns : Option (List String))
    (values : List Value) :
    tables.LapsedBeside (tables.saveAll (tables.insertEffect name columns values).2) name ∧
      ∀ v ∈ (tables.insertEffect name columns values).2, v.name = name := by
  unfold insertEffect
  cases hresult : (do let t ← tables.require name; t.insert columns values tables.read) with
  | error f => exact ⟨⟨h, fun other u _ hu => ⟨u, hu, .refl u⟩⟩, by simp [effectOf]⟩
  | ok t' =>
    obtain ⟨t, hrequire, hinsert⟩ := bind_eq_ok_iff.mp hresult
    have hfind := require_eq_ok_iff.mp hrequire
    obtain rfl := tables.named name t hfind
    have hname : t'.name = t.name := by
      obtain ⟨row, rfl, _⟩ := Table.insert_eq_ok (h.sound t.name t hfind).distinct hinsert
      rfl
    refine ⟨⟨h.insert hfind hinsert, fun other u hother hu => ⟨u, ?_, .refl u⟩⟩, ?_⟩
    · exact find_save.trans ((if_neg (hname ▸ hother)).trans hu)
    · exact List.forall_mem_singleton.mpr hname

/-- What a deletion stores leaves the tables beside it as they are but for its references. -/
theorem Sound.stored_delete (h : tables.Sound) (name : String) (condition : Option Condition) :
    tables.LapsedBeside (tables.saveAll (tables.deleteEffect name condition).2) name ∧
      ∀ other, other ≠ name → ¬ tables.References other name →
        ∀ v ∈ (tables.deleteEffect name condition).2, v.name ≠ other := by
  unfold deleteEffect
  cases hresult : (do let t ← tables.require name; t.delete condition tables.read) with
  | error f => exact ⟨⟨h, fun other u _ hu => ⟨u, hu, .refl u⟩⟩, by simp [effectOf]⟩
  | ok result =>
    obtain ⟨t', d⟩ := result
    obtain ⟨t, hrequire, hdelete⟩ := bind_eq_ok_iff.mp hresult
    have hfind := require_eq_ok_iff.mp hrequire
    obtain rfl := tables.named name t hfind
    constructor
    · have hstored := h.deleted hfind hdelete
      have hsound := h.delete hfind hdelete
      simp only [effectOf, apply_ite tables.saveAll, saveAll_concat]
      refine ⟨hsound, fun other u hother hu => ?_⟩
      obtain ⟨u', hu', hlapsed, _⟩ := hstored.lapsed other u hother hu
      exact ⟨u', hu', hlapsed⟩
    · intro other hother hfree
      obtain ⟨rfl, referrers, hreferrers, hfollows⟩ := Table.delete_eq_ok hdelete
      obtain ⟨_, hkept, _⟩ := h.referrers_eq_ok hfind hreferrers
      have hd := hfollows fun r hr => h.referrer hfind (hkept r hr).1
      have hchanged : ∀ v ∈ d.changed, v.name ≠ other :=
        ne_of_mem_changed hd fun r hr hname => hfree (hname ▸ (hkept r hr).2)
      simp only [effectOf]
      split
      · exact hchanged
      · refine List.forall_mem_append.mpr ⟨hchanged, List.forall_mem_singleton.mpr ?_⟩
        exact hother.symm

/-- An insertion has the same effect after a change beside its table. -/
theorem Sound.insertEffect_eq (h : tables.Sound) (h' : tables.LapsedBeside tables' other)
    (hself : tables'.find name = tables.find name) (hfree : ¬ tables.References name other) :
    tables'.insertEffect name columns values = tables.insertEffect name columns values := by
  have hinsert : (do let t ← tables'.require name; t.insert columns values tables'.read) =
      (do let t ← tables.require name; t.insert columns values tables.read) := by
    rw [require, require, hself]
    cases hfind : tables.find name with
    | none => rfl
    | some t =>
      exact Table.insert_congr (h.sound name t hfind) (h.directed hfind)
        (h'.sound.directed (hself.trans hfind)) fun row _ fk hfk =>
          h'.findsTarget_iff h hfind hfree hfk
  rw [insertEffect, insertEffect, hinsert]

/-- A deletion has the same effect after a change of a table that does not reference it. -/
theorem Sound.deleteEffect_eq (h : tables.Sound) (hother : name ≠ other)
    (hsame : ∀ n, n ≠ other → tables'.find n = tables.find n)
    (hfree : ¬ tables.References other name) :
    tables'.deleteEffect name condition = tables.deleteEffect name condition := by
  have hdelete : (do let t ← tables'.require name; t.delete condition tables'.read) =
      (do let t ← tables.require name; t.delete condition tables.read) := by
    rw [require, require, hsame name hother]
    cases hfind : tables.find name with
    | none => rfl
    | some t =>
      refine Table.delete_congr fun n hn => congrArg Except.ok (hsame n ?_)
      rintro rfl
      exact hfree ((h.listed name t hfind n).mp (SortedMap.mem_keys_iff_contains.mp hn))
  rw [deleteEffect, deleteEffect, hdelete]

end TableMap

namespace TableStore

variable {c : TableStore Memory} {a b : String}

/-- In a reachable catalog, an insertion and a statement about the rows of another table
commute if neither table has a foreign key to the other: each of them has the same result in
either order, and the same bytes are stored at the end. -/
theorem Reachable.independent (h : Reachable c) (hab : a ≠ b) {columns : Option (List String)}
    {values : List Value} {s : Statement} (hs : s.ChangesRowsOf b)
    (hfree : ∀ t, Catalog.load c a = .ok (some t) → ∀ fk ∈ t.foreignKeys, fk.table ≠ b)
    (hfree' : ∀ t, Catalog.load c b = .ok (some t) → ∀ fk ∈ t.foreignKeys, fk.table ≠ a)
    (hfits : ((Statement.insert a columns values).execute c).2.FitsMemory)
    (hfits' : (s.execute c).2.FitsMemory) :
    ((Statement.insert a columns values).execute (s.execute c).2).1 =
        ((Statement.insert a columns values).execute c).1 ∧
      (s.execute ((Statement.insert a columns values).execute c).2).1 = (s.execute c).1 ∧
      ∀ k, ByteStore.get (s.execute ((Statement.insert a columns values).execute c).2).2.store k =
        ByteStore.get
          ((Statement.insert a columns values).execute (s.execute c).2).2.store k := by
  obtain ⟨tables, hholds, hsound⟩ := h.sound
  have hload {n : String} {u : Table} : Catalog.load c n = .ok (some u) ↔
      tables.find n = some u := hholds.load_eq_some_iff h.fitsMemory
  have hrefers : ¬ tables.References a b := fun ⟨t, ht, fk, hfk, htable⟩ =>
    hfree t (hload.mpr ht) fk hfk htable
  have hrefers' : ¬ tables.References b a := fun ⟨t, ht, fk, hfk, htable⟩ =>
    hfree' t (hload.mpr ht) fk hfk htable
  obtain ⟨hbeside, hstored⟩ := hsound.stored_insert a columns values
  have hothers : ∀ n, n ≠ a →
      (tables.saveAll (tables.insertEffect a columns values).2).find n = tables.find n :=
    fun n hn => TableMap.find_saveAll_of_forall_ne fun u hu => hstored u hu ▸ hn.symm
  -- the other statement leaves the table of the insertion alone, so only its effect is missing
  have hcommute {effect : TableMap.Effect} (hs : tables.HasEffect s effect)
      (hafter : (tables.saveAll (tables.insertEffect a columns values).2).HasEffect s effect)
      (hbeside' : tables.LapsedBeside (tables.saveAll effect.2) b)
      (hstored' : ∀ v ∈ effect.2, v.name ≠ a) :=
    TableMap.HasEffect.commute TableMap.hasEffect_insert hs
      (hsound.insertEffect_eq hbeside' (TableMap.find_saveAll_of_forall_ne hstored') hrefers ▸
        TableMap.hasEffect_insert)
      hafter (fun u hu v hv => hstored u hu ▸ (hstored' v hv).symm) hholds h.fitsMemory hfits hfits'
  cases s with
  | insert table columns' values' =>
    obtain rfl : table = b := hs
    obtain ⟨hbeside', hstored'⟩ := hsound.stored_insert table columns' values'
    refine hcommute TableMap.hasEffect_insert ?_ hbeside' fun v hv => hstored' v hv ▸ hab.symm
    rw [← hsound.insertEffect_eq hbeside (hothers table hab.symm) hrefers']
    exact TableMap.hasEffect_insert
  | delete table condition =>
    obtain rfl : table = b := hs
    obtain ⟨hbeside', hstored'⟩ := hsound.stored_delete table condition
    refine hcommute TableMap.hasEffect_delete ?_ hbeside' (hstored' a hab hrefers)
    rw [← hsound.deleteEffect_eq hab.symm hothers hrefers]
    exact TableMap.hasEffect_delete
  | _ => exact hs.elim

/-- A table that references the players of the sample, who reference the teams. -/
def sampleAwards : Table where
  name := "award"
  schema :=
    [{ Attribute.plain "player" .integer 0 true with
        table := "award", references := some ("player", "id") }]
  rows := []
  primaryKey := []
  foreignKeys := [⟨["player"], "player", ["id"], true⟩]
  referencedBy := SortedMap.empty

/-- The sample with that table. -/
def sampleAwarded : TableStore Memory :=
  ((Statement.createTable "award" [.plain "player" .integer]
    [.foreignKey ["player"] "player" ["id"]]).execute sample).2

/-- The table of awards is kept with those of the sample, and the players list it. -/
theorem sampleAwarded_eq : sampleAwarded = Catalog.save (Catalog.save (Catalog.save
    ⟨Memory.empty⟩ keptTeams) (samplePlayers.withReferrer "award")) sampleAwards := by
  rw [sampleAwarded, sample_eq]
  decide +kernel

/-- An award to a player is stored also after the player's team is deleted. -/
theorem independent_sample :
    ((Statement.insert "award" none [.integer 7]).execute
      ((Statement.delete "team" none).execute sampleAwarded).2).1 = .ok (.inserted 1) := by
  have hawarded : sampleAwarded.FitsMemory := by
    rw [sampleAwarded_eq]
    decide +kernel
  have hreachable : Reachable sampleAwarded := reachable_sample.execute _ hawarded
  have hawards : Catalog.load sampleAwarded "award" = .ok (some sampleAwards) := by
    rw [sampleAwarded_eq]
    decide +kernel
  have hteams : Catalog.load sampleAwarded "team" = .ok (some keptTeams) := by
    rw [sampleAwarded_eq]
    decide +kernel
  have hinserted : ((Statement.insert "award" none [.integer 7]).execute sampleAwarded).1 =
      .ok (.inserted 1) := by
    rw [sampleAwarded_eq]
    decide +kernel
  have hab : "award" ≠ "team" := by decide
  have hfree : ∀ t, Catalog.load sampleAwarded "award" = .ok (some t) →
      ∀ fk ∈ t.foreignKeys, fk.table ≠ "team" := by
    intro t ht
    obtain rfl := Option.some.inj (Except.ok.inj (hawards.symm.trans ht))
    decide
  have hfree' : ∀ t, Catalog.load sampleAwarded "team" = .ok (some t) →
      ∀ fk ∈ t.foreignKeys, fk.table ≠ "award" := by
    intro t ht
    obtain rfl := Option.some.inj (Except.ok.inj (hteams.symm.trans ht))
    decide
  have hfits : ((Statement.insert "award" none [.integer 7]).execute
      sampleAwarded).2.FitsMemory := by
    rw [sampleAwarded_eq]
    decide +kernel
  have hfits' : ((Statement.delete "team" none).execute sampleAwarded).2.FitsMemory := by
    rw [sampleAwarded_eq]
    decide +kernel
  rw [← hinserted]
  exact (hreachable.independent (s := .delete "team" none) hab rfl hfree hfree' hfits hfits').1

end TableStore

end RelationalStore
