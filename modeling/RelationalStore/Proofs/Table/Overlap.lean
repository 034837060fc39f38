import RelationalStore.Proofs.Table.Blocking

/-!
# Foreign keys with columns in common

When a row of the target goes, the foreign keys to it are cleared in turn, each on the row as
the earlier ones have left it. A foreign key that has lost a column to an earlier one does not
link the row any more and is passed over, so that its other columns stay as they are. Which
columns are cleared can be told from the row as it was before.
-/

namespace RelationalStore

namespace Schema

variable {schema : Schema} {row : Row} {columns columns' : List String} {column : String}

/-- Columns that are cleared together are cleared one part after the other. -/
theorem clear_append : schema.clear (columns ++ columns') row =
    schema.clear columns' (schema.clear columns row) := by
  simp only [clear, List.filterMap_append, List.foldl_append]

/-- What is cleared depends only on which columns are listed. -/
theorem clear_congr (h : ∀ column, column ∈ columns ↔ column ∈ columns') :
    schema.clear columns row = schema.clear columns' row := by
  have hmem (i : Nat) :
      i ∈ columns.filterMap schema.position? ↔ i ∈ columns'.filterMap schema.position? := by
    simp only [List.mem_filterMap, h]
  refine List.ext_getElem? fun i => ?_
  simp only [clear, getElem?_foldl_set_null, hmem]

/-- A column that is not cleared keeps its value. -/
theorem value?_clear_of_not_mem (hcolumn : column ∉ columns) :
    schema.value? (schema.clear columns row) column = schema.value? row column :=
  ((lapsed_clear columns row).value? column).resolve_right fun hnull => hcolumn hnull.2

end Schema

namespace ForeignKey

variable {fk : ForeignKey} {fks : List ForeignKey} {source target : Schema} {found row : Row}
  {cleared : List String} {column : String}

/-- A foreign key links a row of which some columns are cleared exactly if it has linked it
before and has none of these columns. -/
theorem links_clear_iff : fk.Links source (source.clear cleared row) target found ↔
    fk.Links source row target found ∧ ∀ column ∈ fk.columns, column ∉ cleared := by
  constructor
  · intro hlinks
    refine ⟨(Schema.lapsed_clear cleared row).agree hlinks, fun column hcolumn hmem => ?_⟩
    obtain ⟨w, hw, hne⟩ := hlinks.exists_value hcolumn
    rw [Schema.value?_clear hmem, Option.map_eq_some_iff] at hw
    obtain ⟨_, _, hnull⟩ := hw
    exact hne hnull.symm
  · rintro ⟨hlinks, hdisjoint⟩
    exact hlinks.congr (fun column hcolumn =>
      Schema.value?_clear_of_not_mem (hdisjoint column hcolumn)) fun _ _ => rfl

/-- The columns that are cleared when foreign keys are cleared in turn: those of each one that
links the row and has no column that has been cleared before. -/
def clearing (source target : Schema) (found row : Row) :
    List String → List ForeignKey → List String
  | cleared, [] => cleared
  | cleared, fk :: rest =>
    if fk.Links source row target found ∧ ∀ column ∈ fk.columns, column ∉ cleared
    then clearing source target found row (cleared ++ fk.columns) rest
    else clearing source target found row cleared rest

/-- A row on which foreign keys are cleared in turn loses the values in these columns. -/
theorem foldl_lapse_clear (fks : List ForeignKey) (cleared : List String) :
    fks.foldl (fun row fk => fk.lapse source target found row) (source.clear cleared row) =
      source.clear (clearing source target found row cleared fks) row := by
  induction fks generalizing cleared with
  | nil => rfl
  | cons fk fks ih =>
    rw [List.foldl_cons, lapse, clearing]
    simp only [links_clear_iff]
    split
    · rw [← Schema.clear_append, ih]
    · exact ih cleared

/-- What has been cleared stays so while other foreign keys are cleared. -/
theorem subset_clearing : cleared ⊆ clearing source target found row cleared fks := by
  induction fks generalizing cleared with
  | nil => exact List.Subset.refl _
  | cons fk fks ih =>
    rw [clearing]
    split
    · exact List.Subset.trans (List.subset_append_left _ _) ih
    · exact ih

/-- Only columns of foreign keys that link the row are cleared. -/
theorem exists_of_mem_clearing (h : column ∈ clearing source target found row cleared fks) :
    column ∈ cleared ∨ ∃ fk ∈ fks, fk.Links source row target found ∧ column ∈ fk.columns := by
  induction fks generalizing cleared with
  | nil => exact .inl h
  | cons fk fks ih =>
    rw [clearing] at h
    rw [List.exists_mem_cons_iff]
    split at h
    · next hfirst =>
      rcases ih h with hcolumn | hlater
      · exact (List.mem_append.mp hcolumn).imp_right fun hcolumn => .inl ⟨hfirst.1, hcolumn⟩
      · exact .inr (.inr hlater)
    · exact (ih h).imp_right .inr

/-- Foreign keys that link the row have all their columns in common or none. -/
def Apart (source target : Schema) (found row : Row) (fks : List ForeignKey) : Prop :=
  ∀ fk ∈ fks, ∀ fk' ∈ fks, fk.Links source row target found → fk'.Links source row target found →
    (∃ column ∈ fk.columns, column ∈ fk'.columns) → fk.columns ⊆ fk'.columns

/-- Where foreign keys are apart, each one that links the row loses all its columns. -/
theorem Apart.columns_subset_clearing (h : Apart source target found row fks)
    (hcleared : ∀ fk ∈ fks, fk.Links source row target found →
      (∃ column ∈ fk.columns, column ∈ cleared) → fk.columns ⊆ cleared) :
    ∀ fk ∈ fks, fk.Links source row target found →
      fk.columns ⊆ clearing source target found row cleared fks := by
  induction fks generalizing cleared with
  | nil => simp
  | cons first rest ih =>
    have hrest : Apart source target found row rest := fun fk hfk fk' hfk' =>
      h fk (List.mem_cons_of_mem _ hfk) fk' (List.mem_cons_of_mem _ hfk')
    obtain ⟨hfirst, hlater⟩ := List.forall_mem_cons.mp hcleared
    refine List.forall_mem_cons.mpr ⟨fun hlinks => ?_, ?_⟩
    · by_cases hfree : ∀ column ∈ first.columns, column ∉ cleared
      · rw [clearing, if_pos ⟨hlinks, hfree⟩]
        exact List.Subset.trans (List.subset_append_right _ _) subset_clearing
      · simp only [not_forall, not_not] at hfree
        obtain ⟨column, hcolumn, hmem⟩ := hfree
        exact List.Subset.trans (hfirst hlinks ⟨column, hcolumn, hmem⟩) subset_clearing
    · rw [clearing]
      split
      · next htaken =>
        -- a later one that has a column of this one has no other columns
        refine ih hrest fun fk hfk hlinks => ?_
        rintro ⟨column, hcolumn, hmem⟩
        rcases List.mem_append.mp hmem with hmem | hmem
        · have hbefore := hlater fk hfk hlinks ⟨column, hcolumn, hmem⟩
          exact List.Subset.trans hbefore (List.subset_append_left _ _)
        · have hfirst := h fk (List.mem_cons_of_mem _ hfk) first List.mem_cons_self hlinks
            htaken.1 ⟨column, hcolumn, hmem⟩
          exact List.Subset.trans hfirst (List.subset_append_right _ _)
      · exact ih hrest hlater

/-- Where foreign keys are apart, exactly the columns are cleared of those that link the row. -/
theorem Apart.mem_clearing_iff (h : Apart source target found row fks) :
    column ∈ clearing source target found row [] fks ↔
      ∃ fk ∈ fks, fk.Links source row target found ∧ column ∈ fk.columns := by
  constructor
  · exact fun hcolumn => (exists_of_mem_clearing hcolumn).resolve_left List.not_mem_nil
  · rintro ⟨fk, hfk, hlinks, hcolumn⟩
    exact h.columns_subset_clearing (by simp) fk hfk hlinks hcolumn

end ForeignKey

namespace Table

variable {u u' target : Table} {found row : Row} {key : Cells} {fk : ForeignKey} {column : String}

/-- The columns in which a row of the table becomes NULL when a row of the target goes. -/
def clearedFor (u target : Table) (found row : Row) : List String :=
  ForeignKey.clearing u.schema target.schema found row []
    (u.foreignKeys.filter fun fk => fk.table == target.name && fk.nullable)

/-- The foreign keys to the target that admit NULL and link the row have all their columns in
common or none. -/
def Apart (u target : Table) (found row : Row) : Prop :=
  ForeignKey.Apart u.schema target.schema found row
    (u.foreignKeys.filter fun fk => fk.table == target.name && fk.nullable)

/-- A row lapses by losing its values in the columns that are cleared for the row that goes. -/
theorem lapseRow_eq_clear (u target : Table) (row found : Row) :
    u.lapseRow target row found = u.schema.clear (u.clearedFor target found row) row :=
  ForeignKey.foldl_lapse_clear _ []

/-- A foreign key that has linked the row has lost those columns that are cleared. -/
theorem value?_clearedFor_eq_null_iff (hlinks : fk.Links u.schema row target.schema found)
    (hcolumn : column ∈ fk.columns) :
    u.schema.value? (u.schema.clear (u.clearedFor target found row) row) column = some .null ↔
      column ∈ u.clearedFor target found row := by
  obtain ⟨w, hw, hne⟩ := hlinks.exists_value hcolumn
  by_cases hmem : column ∈ u.clearedFor target found row
  · rw [Schema.value?_clear hmem, hw]
    simp [hmem]
  · rw [Schema.value?_clear_of_not_mem hmem, hw]
    simp [hmem, hne]

/-- The rows of the table after the cascade of one row of the target. -/
theorem cascadeNull_eq_clear {n : Nat} (hrefers : u.Referrer target)
    (hkey : target.cells found target.primaryKey = .ok key)
    (h : u.cascadeNull target.name key = .ok (u', n)) :
    u' = { u with rows := u.rows.map fun row =>
      u.schema.clear (u.clearedFor target found row) row } := by
  rw [cascadeNull_eq_ok hrefers hkey h, after]
  simp only [List.foldl_cons, List.foldl_nil, lapseRow_eq_clear]

/-- Where foreign keys are apart, their order does not matter. -/
theorem Apart.clear_perm {fks : List ForeignKey} (h : u.Apart target found row)
    (hperm : fks.Perm u.foreignKeys) :
    u.schema.clear (clearedFor { u with foreignKeys := fks } target found row) row =
      u.schema.clear (u.clearedFor target found row) row := by
  have hsame := hperm.filter fun fk => fk.table == target.name && fk.nullable
  have happart : Apart { u with foreignKeys := fks } target found row := fun fk hfk fk' hfk' =>
    h fk (hsame.mem_iff.mp hfk) fk' (hsame.mem_iff.mp hfk')
  refine Schema.clear_congr fun column => ?_
  rw [clearedFor, ForeignKey.Apart.mem_clearing_iff happart, clearedFor,
    ForeignKey.Apart.mem_clearing_iff h]
  simp only [hsame.mem_iff]

end Table

end RelationalStore
