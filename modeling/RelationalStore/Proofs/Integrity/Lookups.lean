import RelationalStore.Proofs.Integrity.Runs
import RelationalStore.Proofs.Table.Lookup

/-!
# References from both of their ends

An insertion looks for the rows that its own references lead to, and a deletion looks for the
rows whose references lead to its own. The two ask different tables for different equations. The
one pairs the referenced columns with values in the order of the foreign key, and the other takes
each value out of the primary key by the name of its column. In a reachable catalog they mean the
same all the same: each of them finds just the rows that are linked.
-/

namespace RelationalStore

namespace ForeignKey

variable {fk : ForeignKey} {t target : Table} {row found : Row} {i j : Nat}

/-- From the row that references, the lookup succeeds, and it finds the position of a row of the
target exactly if the two are linked. -/
theorem Fits.targetRows_find (h : fk.Fits t.schema target) (ht : t.Sound) (htarget : target.Sound)
    (hrow : row ∈ t.rows) (hj : target.rows[j]? = some found) :
    ∃ cells targets, t.cells row fk.columns = .ok cells ∧ fk.targetRows target cells = .ok targets ∧
      (j ∈ targets.map Prod.snd ↔ fk.Links t.schema row target.schema found) := by
  have hadmits := ht.admits row hrow
  obtain ⟨cells, hcells⟩ := Table.exists_cells hadmits fun _ => h.exists_attribute
  obtain ⟨targets, htargets⟩ := h.exists_targetRows ht htarget hadmits hcells
  refine ⟨cells, targets, hcells, htargets, ?_⟩
  rw [Condition.mem_positions_iff_of_matching htargets hj,
    mem_targetRows_iff htarget.distinct h.length_eq hcells htargets, and_iff_right hj]

/-- From the row that is referenced, the lookup succeeds, and it finds the position of a row of
the source exactly if the two are linked. -/
theorem Fits.referencingRows_find (h : fk.Fits t.schema target) (ht : t.Sound)
    (htarget : target.Sound) (hi : t.rows[i]? = some row) (hfound : found ∈ target.rows) :
    ∃ key sources, target.cells found target.primaryKey = .ok key ∧
      fk.referencingRows t key = .ok sources ∧
      (i ∈ sources.map Prod.snd ↔ fk.Links t.schema row target.schema found) := by
  have hadmits := htarget.admits found hfound
  obtain ⟨key, hkey⟩ := Table.exists_cells hadmits htarget.key_defined
  obtain ⟨sources, hsources⟩ := h.exists_referencingRows ht htarget hadmits hkey
  obtain ⟨_, _, hmatching⟩ := bind_eq_ok_iff.mp hsources
  refine ⟨key, sources, hkey, hsources, ?_⟩
  rw [Condition.mem_positions_iff_of_matching hmatching hi,
    mem_referencingRows_iff ht.distinct h.length_eq hkey (fun c => (h.covers c).mp) hsources,
    and_iff_right hi]

end ForeignKey

namespace TableStore

variable {c : TableStore Memory} {name : String} {t : Table}

/-- In a reachable catalog a row is found among those that reference a key exactly if the row of
this key is found among those that the values of the first row lead to, which is to say that the
two rows are linked. A row with NULL in a column of the foreign key is not found in either way. -/
theorem Reachable.lookups_agree (h : Reachable c) (ht : Catalog.load c name = .ok (some t))
    {fk : ForeignKey} (hfk : fk ∈ t.foreignKeys) :
    ∃ target, Catalog.load c fk.table = .ok (some target) ∧
      ∀ (i j : Nat) (row found : Row), t.rows[i]? = some row → target.rows[j]? = some found →
        ∃ cells targets key sources,
          t.cells row fk.columns = .ok cells ∧ fk.targetRows target cells = .ok targets ∧
          target.cells found target.primaryKey = .ok key ∧
          fk.referencingRows t key = .ok sources ∧
          (i ∈ sources.map Prod.snd ↔ j ∈ targets.map Prod.snd) ∧
          (i ∈ sources.map Prod.snd ↔ fk.Links t.schema row target.schema found) ∧
          ((∃ column ∈ fk.columns, t.schema.value? row column = some .null) →
            i ∉ sources.map Prod.snd ∧ j ∉ targets.map Prod.snd) := by
  obtain ⟨tables, hholds, hsound⟩ := h.sound
  have hload {n : String} {u : Table} :
      Catalog.load c n = .ok (some u) ↔ tables.find n = some u :=
    hholds.load_eq_some_iff h.fitsMemory
  have hfind := hload.mp ht
  obtain ⟨_, target, htarget, hfits⟩ := hsound.targets name t hfind fk hfk
  have hsource := hsound.sound name t hfind
  have htarget' := hsound.sound fk.table target htarget
  refine ⟨target, hload.mpr htarget, fun i j row found hi hj => ?_⟩
  obtain ⟨cells, targets, hcells, htargets, hfromSource⟩ :=
    hfits.targetRows_find hsource htarget' (List.mem_of_getElem? hi) hj
  obtain ⟨key, sources, hkey, hsources, hfromTarget⟩ :=
    hfits.referencingRows_find hsource htarget' hi (List.mem_of_getElem? hj)
  refine ⟨cells, targets, key, sources, hcells, htargets, hkey, hsources,
    hfromTarget.trans hfromSource.symm, hfromTarget, ?_⟩
  rintro ⟨column, hcolumn, hnull⟩
  have hunlinked : ¬ fk.Links t.schema row target.schema found := by
    intro hlinks
    obtain ⟨v, hv, hne⟩ := hlinks.exists_value hcolumn
    exact hne (Option.some.inj (hv.symm.trans hnull))
  exact ⟨mt hfromTarget.mp hunlinked, mt hfromSource.mp hunlinked⟩

/-- A catalog with a foreign key that lists the columns of the primary key in another order and
one of them twice. The date in the row that references is not the one that is referenced, but it
has the same ordinal. A second row has NULL in the foreign key. -/
def repeating : TableStore Memory :=
  run ⟨Memory.empty⟩
    [.createTable "shift" [.plain "on" .date, .plain "place" .integer]
        [.primaryKey ["on", "place"]],
      .createTable "guard" [.plain "home" .integer, .plain "since" .date, .plain "post" .integer]
        [.foreignKey ["home", "since", "post"] "shift" ["place", "on", "place"]],
      .insert "shift" none [.date ⟨2024, 1, 101⟩, .integer 1],
      .insert "guard" none [.integer 1, .date ⟨2024, 2, 1⟩, .integer 1],
      .insert "guard" none [.integer 1, .null, .integer 1]]

/-- The foreign key in this catalog. -/
def repeatingReference : ForeignKey :=
  ⟨["home", "since", "post"], "shift", ["place", "on", "place"], true⟩

/-- The table of the shifts. -/
def shiftTable : Table where
  name := "shift"
  schema :=
    [{ Attribute.plain "on" .date 0 true with table := "shift" }.asPrimary,
      { Attribute.plain "place" .integer 0 true with table := "shift" }.asPrimary]
  rows := [[.date ⟨2024, 1, 101⟩, .integer 1]]
  primaryKey := ["on", "place"]
  foreignKeys := []
  referencedBy := NameSet.ofNames ["guard"]

/-- The table of the guards. -/
def guardTable : Table where
  name := "guard"
  schema :=
    [({ Attribute.plain "home" .integer 0 true with table := "guard" }).referencing "shift" "place",
      ({ Attribute.plain "since" .date 0 true with table := "guard" }).referencing "shift" "on",
      ({ Attribute.plain "post" .integer 0 true with table := "guard" }).referencing "shift" "place"]
  rows := [[.integer 1, .date ⟨2024, 2, 1⟩, .integer 1], [.integer 1, .null, .integer 1]]
  primaryKey := []
  foreignKeys := [repeatingReference]
  referencedBy := SortedMap.empty

/-- The first guard is found from both ends, and the second from neither. -/
theorem lookups_agree_repeating :
    (∃ targets sources,
      repeatingReference.targetRows shiftTable [("home", .integer 1), ("since", .date ⟨2024, 2, 1⟩),
        ("post", .integer 1)] = .ok targets ∧
      repeatingReference.referencingRows guardTable [("on", .date ⟨2024, 1, 101⟩),
        ("place", .integer 1)] = .ok sources ∧
      0 ∈ targets.map Prod.snd ∧ 0 ∈ sources.map Prod.snd) ∧
    ∃ targets sources,
      repeatingReference.targetRows shiftTable [("home", .integer 1), ("since", .null),
        ("post", .integer 1)] = .ok targets ∧
      repeatingReference.referencingRows guardTable [("on", .date ⟨2024, 1, 101⟩),
        ("place", .integer 1)] = .ok sources ∧
      0 ∉ targets.map Prod.snd ∧ 1 ∉ sources.map Prod.snd := by
  have hreachable : Reachable repeating := Reachable.empty.run (by decide +kernel)
  have hstored : repeating = Catalog.save (Catalog.save ⟨Memory.empty⟩ shiftTable) guardTable := by
    decide +kernel
  have hguards : Catalog.load repeating "guard" = .ok (some guardTable) := by
    rw [hstored]
    decide +kernel
  have hshifts : Catalog.load repeating "shift" = .ok (some shiftTable) := by
    rw [hstored]
    decide +kernel
  have hfk : repeatingReference ∈ guardTable.foreignKeys := List.mem_cons_self
  obtain ⟨target, htarget, hagree⟩ := hreachable.lookups_agree hguards hfk
  obtain rfl : target = shiftTable := Option.some.inj (Except.ok.inj (htarget.symm.trans hshifts))
  constructor
  · obtain ⟨cells, targets, key, sources, hcells, htargets, hkey, hsources, hboth, hlinks, _⟩ :=
      hagree 0 0 _ _ rfl rfl
    obtain rfl := Except.ok.inj hcells
    obtain rfl := Except.ok.inj hkey
    have hfound := hlinks.mpr (by decide +kernel)
    exact ⟨targets, sources, htargets, hsources, hboth.mp hfound, hfound⟩
  · obtain ⟨cells, targets, key, sources, hcells, htargets, hkey, hsources, _, _, hnull⟩ :=
      hagree 1 0 _ _ rfl rfl
    obtain rfl := Except.ok.inj hcells
    obtain rfl := Except.ok.inj hkey
    obtain ⟨hsource, htarget⟩ := hnull ⟨"since", by decide, rfl⟩
    exact ⟨targets, sources, htargets, hsources, htarget, hsource⟩

end TableStore

end RelationalStore
