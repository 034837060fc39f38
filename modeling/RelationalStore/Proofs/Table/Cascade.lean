import RelationalStore.Proofs.Table.Sound

/-!
# References that lapse with a row

When a row goes, the foreign keys that admit NULL are cleared in all rows linked to it.
One foreign key is handled after another, each on the rows that the ones before have
left. Rows only ever lose links on the way, so that in the end no row is linked to the
row that goes, whatever the order and whichever columns the foreign keys share.
-/

namespace RelationalStore

namespace ForeignKey

variable {fk : ForeignKey} {fks : List ForeignKey} {source : Schema} {target : Table}
  {row found : Row}

/-- The foreign keys to a table that admit NULL. -/
theorem mem_nullable_iff {name : String} :
    fk ∈ fks.filter (fun fk => fk.table == name && fk.nullable) ↔
      fk ∈ fks ∧ fk.table = name ∧ fk.nullable = true := by
  simp [List.mem_filter]

/-- The foreign keys to a table that do not admit NULL. -/
theorem mem_required_iff {name : String} :
    fk ∈ fks.filter (fun fk => fk.table == name && !fk.nullable) ↔
      fk ∈ fks ∧ fk.table = name ∧ fk.nullable = false := by
  simp [List.mem_filter]

/-- A foreign key that fits has as many columns as it references. -/
theorem Fits.length_eq (h : fk.Fits source target) :
    fk.columns.length = fk.refColumns.length :=
  h.pairs.length_eq

/-- A foreign key has a column exactly if its target has a primary key. -/
theorem Fits.columns_ne_nil_iff (h : fk.Fits source target) :
    fk.columns ≠ [] ↔ target.primaryKey ≠ [] := by
  have hnil : fk.columns = [] ↔ fk.refColumns = [] := by
    rw [← List.length_eq_zero_iff, h.length_eq, List.length_eq_zero_iff]
  simp only [ne_eq, hnil, List.eq_nil_iff_forall_not_mem, h.covers]

/-- The positions of the rows that reference a key are those of the linked rows. -/
theorem Fits.mem_positions_iff {t : Table} {key : Cells} {entries : List (Row × Nat)}
    (h : fk.Fits t.schema target) (hdistinct : t.schema.Distinct)
    (hkey : target.cells found target.primaryKey = .ok key)
    (hentries : fk.referencingRows t key = .ok entries) {i : Nat} (hrow : t.rows[i]? = some row) :
    i ∈ entries.map Prod.snd ↔ fk.Links t.schema row target.schema found := by
  have hiff (r : Row) : (r, i) ∈ entries ↔
      t.rows[i]? = some r ∧ fk.Links t.schema r target.schema found :=
    mem_referencingRows_iff hdistinct h.length_eq hkey (fun c hc => (h.covers c).mp hc) hentries
  constructor
  · intro hi
    obtain ⟨⟨r, j⟩, hentry, rfl⟩ := List.mem_map.mp hi
    obtain ⟨hr, hlinks⟩ := (hiff r).mp hentry
    obtain rfl : row = r := Option.some.inj (hrow.symm.trans hr)
    exact hlinks
  · exact fun hlinks => List.mem_map.mpr ⟨(row, i), (hiff row).mpr ⟨hrow, hlinks⟩, rfl⟩

/-- The second row is the first one with the columns of the foreign key cleared if it was
linked to the row that is referenced, and else it is the same. -/
def Clears (fk : ForeignKey) (source target : Schema) (found row row' : Row) : Prop :=
  fk.Links source row target found ∧ row' = source.clear fk.columns row ∨
    ¬ fk.Links source row target found ∧ row' = row

/-- A row whose columns of the foreign key are cleared is linked to nothing. -/
theorem not_links_clear (hne : fk.columns ≠ []) {targetSchema : Schema} :
    ¬ fk.Links source (source.clear fk.columns row) targetSchema found := by
  intro hlinks
  obtain ⟨column, hcolumn⟩ := List.exists_mem_of_ne_nil _ hne
  obtain ⟨w, hw, hnotNull⟩ := hlinks.exists_value hcolumn
  rw [Schema.value?_clear hcolumn, Option.map_eq_some_iff] at hw
  obtain ⟨_, _, hnull⟩ := hw
  exact hnotNull hnull.symm

end ForeignKey

namespace Table

variable {t t' target : Table} {found : Row} {fk : ForeignKey} {key : Cells}

/-- No row of the table is linked to the given row through the foreign key. -/
def Unlinked (t : Table) (fk : ForeignKey) (target : Schema) (found : Row) : Prop :=
  ∀ row ∈ t.rows, ¬ fk.Links t.schema row target found

/-- Rows lose links when they lapse, and gain none. -/
theorem Lapsed.unlinked {P : String → Prop} (h : t.Lapsed P t') {target : Schema}
    (hunlinked : t.Unlinked fk target found) : t'.Unlinked fk target found := by
  intro row' hrow' hlinks
  obtain ⟨row, hrow, hlapsed⟩ := h.rows.exists_left hrow'
  rw [h.schema_eq] at hlinks
  exact hunlinked row hrow (hlapsed.agree hlinks)

/-- Setting cells of a row to NULL one by one succeeds with all of them set. -/
theorem foldlM_setNull {positions : List Nat} {row row' : Row}
    (h : positions.foldlM setNull row = .ok row') :
    row' = positions.foldl (fun cleared i => cleared.set i .null) row := by
  induction positions generalizing row with
  | nil => exact (pure_eq_ok_iff.mp h).symm
  | cons i positions ih =>
    rw [List.foldlM_cons] at h
    obtain ⟨cleared, hcleared, h⟩ := bind_eq_ok_iff.mp h
    unfold setNull at hcleared
    split at hcleared
    · simp only [Except.ok.injEq] at hcleared
      rw [List.foldl_cons, hcleared]
      exact ih h
    · cases hcleared

/-- The positions of columns are looked up one by one. -/
theorem filterMap_position?_of_mapM {columns : List String} {positions : List Nat}
    (h : columns.mapM t.columnIndex = .ok positions) :
    columns.filterMap t.schema.position? = positions := by
  rw [mapM_eq_ok_iff] at h
  induction h with
  | nil => rfl
  | cons hfirst _ ih => rw [List.filterMap_cons_some (columnIndex_eq_ok_iff.mp hfirst), ih]

/-- What becomes of the rows of one foreign key that reference one key: its columns are
cleared in the rows that are linked, and nothing else changes. -/
theorem nullReferences_eq_ok {n : Nat} (hdistinct : t.schema.Distinct)
    (hfits : fk.Fits t.schema target) (hkey : target.cells found target.primaryKey = .ok key)
    (h : t.nullReferences fk key = .ok (t', n)) :
    t' = { t with rows := t'.rows } ∧ (n = 0 → t' = t) ∧
      List.Forall₂ (fk.Clears t.schema target.schema found) t.rows t'.rows := by
  simp only [nullReferences, bind_eq_ok_iff, Failure.lift_eq_ok_iff, pure_eq_ok_iff,
    Prod.mk.injEq] at h
  obtain ⟨entries, hentries, positions, hpositions, rows, hrows, rfl, rfl⟩ := h
  have hmem {row : Row} {i : Nat} (hrow : t.rows[i]? = some row) :=
    hfits.mem_positions_iff hdistinct hkey hentries hrow
  have hclear : List.Forall₂ (fk.Clears t.schema target.schema found) t.rows rows := by
    rw [nullRows, mapM_eq_ok_iff] at hrows
    rw [← List.zipIdx_map_fst 0 t.rows, List.forall₂_map_left_iff]
    refine hrows.imp_mem fun entry hentry row' hrow' => ?_
    have hrow := List.mem_zipIdx_iff_getElem?.mp hentry
    dsimp only at hrow'
    split at hrow'
    · next hlisted =>
      rw [foldlM_setNull hrow', ← filterMap_position?_of_mapM hpositions]
      exact .inl ⟨(hmem hrow).mp hlisted, rfl⟩
    · next hlisted => exact .inr ⟨mt (hmem hrow).mpr hlisted, by simpa using hrow'.symm⟩
  refine ⟨rfl, fun hnone => ?_, hclear⟩
  -- where no row was found, no row is linked, and so none has been cleared
  have hrowsEq : t.rows = rows := by
    refine List.forall₂_eq_eq_eq ▸ hclear.imp_mem fun row hrow row' hrow' => ?_
    obtain ⟨i, hi⟩ := List.getElem?_of_mem hrow
    refine (hrow'.resolve_left fun hlinked => ?_).2.symm
    have hi := (hmem hi).mpr hlinked.1
    simp [List.eq_nil_of_length_eq_zero hnone] at hi
  rw [← hrowsEq]

/-- Clearing one foreign key makes its columns lapse and leaves no row linked through it. -/
theorem nullReferences_unlinked {n : Nat} (hdistinct : t.schema.Distinct)
    (hne : target.primaryKey ≠ []) (hfits : fk.Fits t.schema target)
    (hkey : target.cells found target.primaryKey = .ok key)
    (h : t.nullReferences fk key = .ok (t', n)) :
    t.Lapsed (· ∈ fk.columns) t' ∧ t'.Unlinked fk target.schema found := by
  obtain ⟨hrest, _, hrows⟩ := nullReferences_eq_ok hdistinct hfits hkey h
  refine ⟨⟨hrest, hrows.imp fun row row' hrow => ?_⟩, fun row' hrow' => ?_⟩
  · rcases hrow with ⟨_, rfl⟩ | ⟨_, rfl⟩
    · exact Schema.lapsed_clear fk.columns row
    · exact .refl row'
  · rw [show t'.schema = t.schema by rw [hrest]]
    obtain ⟨row, _, ⟨_, rfl⟩ | ⟨hfree, rfl⟩⟩ := hrows.exists_left hrow'
    · exact ForeignKey.not_links_clear (hfits.columns_ne_nil_iff.mpr hne)
    · exact hfree

/-- Clearing several foreign keys one after another leaves no row linked through any of
them: what one of them has cleared, the next ones do not fill again. -/
theorem nullReferencesThrough_unlinked {fks : List ForeignKey} {n n' : Nat}
    (hdistinct : t.schema.Distinct) (hne : target.primaryKey ≠ [])
    (hfits : ∀ fk ∈ fks, fk.Fits t.schema target)
    (hkey : target.cells found target.primaryKey = .ok key)
    (h : nullReferencesThrough key fks (t, n) = .ok (t', n')) :
    t.Lapsed (fun column => ∃ fk ∈ fks, column ∈ fk.columns) t' ∧ n ≤ n' ∧ (n' = n → t' = t) ∧
      ∀ fk ∈ fks, t'.Unlinked fk target.schema found := by
  induction fks generalizing t n with
  | nil =>
    simp only [nullReferencesThrough, Except.ok.injEq, Prod.mk.injEq] at h
    obtain ⟨rfl, rfl⟩ := h
    exact ⟨.refl t, Nat.le_refl _, fun _ => rfl, by simp⟩
  | cons fk fks ih =>
    rw [List.forall_mem_cons] at hfits
    obtain ⟨⟨s, k⟩, hs, h⟩ := bind_eq_ok_iff.mp h
    obtain ⟨hlapsed, hunlinked⟩ := nullReferences_unlinked hdistinct hne hfits.1 hkey hs
    obtain ⟨_, hzero, _⟩ := nullReferences_eq_ok hdistinct hfits.1 hkey hs
    obtain ⟨hrest, hle, hsame, hall⟩ := ih (hlapsed.schema_eq ▸ hdistinct)
      (hlapsed.schema_eq ▸ hfits.2) h
    refine ⟨(hlapsed.mono ?_).trans (hrest.mono ?_), by omega, ?_, ?_⟩
    · exact fun column hcolumn => ⟨fk, List.mem_cons_self, hcolumn⟩
    · exact fun column ⟨other, hother, hcolumn⟩ =>
        ⟨other, List.mem_cons_of_mem _ hother, hcolumn⟩
    · intro hn
      rw [hsame (by omega), hzero (by omega)]
    · exact List.forall_mem_cons.mpr ⟨hrest.unlinked hunlinked, hall⟩

/-- The foreign keys of the table to a target fit that target. -/
structure Referrer (t target : Table) : Prop where
  distinct : t.schema.Distinct
  fits : ∀ fk ∈ t.foreignKeys, fk.table = target.name → fk.Fits t.schema target

/-- The foreign keys to the target that admit NULL fit it. -/
theorem Referrer.fits_nullable (h : t.Referrer target) :
    ∀ fk ∈ t.foreignKeys.filter fun fk => fk.table == target.name && fk.nullable,
      fk.Fits t.schema target := by
  intro fk hfk
  obtain ⟨hfk, htable, _⟩ := ForeignKey.mem_nullable_iff.mp hfk
  exact h.fits fk hfk htable

/-- The foreign keys to the target that admit no NULL fit it. -/
theorem Referrer.fits_required (h : t.Referrer target) :
    ∀ fk ∈ t.foreignKeys.filter fun fk => fk.table == target.name && !fk.nullable,
      fk.Fits t.schema target := by
  intro fk hfk
  obtain ⟨hfk, htable, _⟩ := ForeignKey.mem_required_iff.mp hfk
  exact h.fits fk hfk htable

/-- The foreign keys of a table still fit their target after cells have become NULL. -/
theorem Lapsed.referrer {P : String → Prop} (h : t.Lapsed P t') (hrefers : t.Referrer target) :
    t'.Referrer target := by
  refine ⟨h.schema_eq ▸ hrefers.distinct, ?_⟩
  rw [h.schema_eq, h.foreignKeys_eq]
  exact hrefers.fits

/-- A column lapses with the rows of a target if a foreign key there that admits NULL has
it. -/
def LapsesWith (t : Table) (target column : String) : Prop :=
  ∃ fk ∈ t.foreignKeys, fk.table = target ∧ fk.nullable = true ∧ column ∈ fk.columns

/-- In a sound table only columns that admit NULL lapse with another table. -/
theorem Sound.nullable_of_lapsesWith (h : t.Sound) {target : String} {a : Attribute}
    (ha : a ∈ t.schema) (hlapses : t.LapsesWith target a.name) : a.nullable = true := by
  obtain ⟨fk, hfk, _, hnullable, hcolumn⟩ := hlapses
  obtain ⟨b, hb, hname, hb'⟩ := (h.nullable_iff fk hfk).mp hnullable a.name hcolumn
  exact h.distinct.eq_of_name_eq hb ha hname ▸ hb'

/-- The cascade to one table: columns of foreign keys that admit NULL lapse, nothing has
changed if nothing was counted, and no such foreign key links a row any more. -/
theorem cascadeNull_unlinked {n : Nat} (hrefers : t.Referrer target)
    (hne : target.primaryKey ≠ []) (hkey : target.cells found target.primaryKey = .ok key)
    (h : t.cascadeNull target.name key = .ok (t', n)) :
    t.Lapsed (t.LapsesWith target.name) t' ∧ (n = 0 → t' = t) ∧
      ∀ fk ∈ t.foreignKeys, fk.table = target.name → fk.nullable = true →
        t'.Unlinked fk target.schema found := by
  obtain ⟨hlapsed, _, hsame, hunlinked⟩ :=
    nullReferencesThrough_unlinked hrefers.distinct hne hrefers.fits_nullable hkey h
  refine ⟨hlapsed.mono ?_, hsame, fun fk hfk htable hnullable => ?_⟩
  · rintro column ⟨fk, hfk, hcolumn⟩
    obtain ⟨hfk, htable, hnullable⟩ := ForeignKey.mem_nullable_iff.mp hfk
    exact ⟨fk, hfk, htable, hnullable, hcolumn⟩
  · exact hunlinked fk (ForeignKey.mem_nullable_iff.mpr ⟨hfk, htable, hnullable⟩)

/-- The row of the target is referenced through a foreign key that admits no NULL. -/
def Restricts (t target : Table) (found : Row) : Prop :=
  ∃ fk ∈ t.foreignKeys, (fk.table = target.name ∧ fk.nullable = false) ∧
    ∃ row ∈ t.rows, fk.Links t.schema row target.schema found

instance (t target : Table) (found : Row) : Decidable (t.Restricts target found) :=
  inferInstanceAs (Decidable (∃ fk ∈ t.foreignKeys, _))

/-- The lookup through several foreign keys finds a row exactly if one is linked. -/
theorem restrictsThrough_eq_ok {fks : List ForeignKey} {answer : Bool}
    (hdistinct : t.schema.Distinct) (hfits : ∀ fk ∈ fks, fk.Fits t.schema target)
    (hkey : target.cells found target.primaryKey = .ok key)
    (h : t.restrictsThrough key fks = .ok answer) :
    answer = true ↔ ∃ fk ∈ fks, ∃ row ∈ t.rows, fk.Links t.schema row target.schema found := by
  induction fks with
  | nil =>
    obtain rfl := Except.ok.inj h
    simp
  | cons fk fks ih =>
    rw [List.forall_mem_cons] at hfits
    obtain ⟨hfirst, hfits⟩ := hfits
    obtain ⟨entries, hentries, h⟩ := bind_eq_ok_iff.mp h
    have hiff {row : Row} {i : Nat} : (row, i) ∈ entries ↔
        t.rows[i]? = some row ∧ fk.Links t.schema row target.schema found :=
      ForeignKey.mem_referencingRows_iff hdistinct hfirst.length_eq hkey
        (fun c hc => (hfirst.covers c).mp hc) hentries
    rw [List.exists_mem_cons_iff]
    split at h
    · next hempty =>
      rw [ih hfits h]
      refine (or_iff_right ?_).symm
      rintro ⟨row, hrow, hlinks⟩
      obtain ⟨i, hi⟩ := List.getElem?_of_mem hrow
      simpa [List.isEmpty_iff.mp hempty] using hiff.mpr ⟨hi, hlinks⟩
    · next hsome =>
      obtain rfl := Except.ok.inj h
      obtain ⟨⟨row, i⟩, hentry⟩ := List.exists_mem_of_ne_nil entries (mt List.isEmpty_iff.mpr hsome)
      obtain ⟨hi, hlinks⟩ := hiff.mp hentry
      exact iff_of_true rfl (.inl ⟨row, List.mem_of_getElem? hi, hlinks⟩)

/-- The lookup in several tables finds out whether one of them restricts the row. -/
theorem anyRestricts_eq_ok {tables : List Table} {answer : Bool}
    (hrefers : ∀ t ∈ tables, t.Referrer target)
    (hkey : target.cells found target.primaryKey = .ok key)
    (h : anyRestricts target.name key tables = .ok answer) :
    answer = true ↔ ∃ t ∈ tables, t.Restricts target found := by
  induction tables with
  | nil =>
    obtain rfl := Except.ok.inj h
    simp
  | cons t tables ih =>
    rw [List.forall_mem_cons] at hrefers
    obtain ⟨first, hfirst, h⟩ := bind_eq_ok_iff.mp h
    have hone : first = true ↔ t.Restricts target found := by
      rw [restrictsThrough_eq_ok hrefers.1.distinct hrefers.1.fits_required hkey hfirst, Restricts]
      simp only [ForeignKey.mem_required_iff, and_assoc]
    rw [List.exists_mem_cons_iff, ← hone]
    cases first with
    | true =>
      obtain rfl := Except.ok.inj h
      exact iff_of_true rfl (.inl rfl)
    | false =>
      rw [ih hrefers.2 h]
      simp

/-- A key that nothing restricts is the target of no row in any of the tables through a
foreign key that admits no NULL. -/
theorem anyRestricts_unlinked {tables : List Table}
    (hrefers : ∀ t ∈ tables, t.Referrer target)
    (hkey : target.cells found target.primaryKey = .ok key)
    (h : anyRestricts target.name key tables = .ok false) :
    ∀ t ∈ tables, ∀ fk ∈ t.foreignKeys, fk.table = target.name → fk.nullable = false →
      t.Unlinked fk target.schema found := by
  intro t ht fk hfk htable hnullable row hrow hlinks
  have hrestricts : t.Restricts target found := ⟨fk, hfk, ⟨htable, hnullable⟩, row, hrow, hlinks⟩
  exact absurd ((anyRestricts_eq_ok hrefers hkey h).mpr ⟨t, ht, hrestricts⟩) Bool.false_ne_true

end Table

end RelationalStore
