import RelationalStore.Proofs.Table.Reading
import RelationalStore.Proofs.Table.Sound

/-!
# What an insertion has checked

A row that an insertion adds fits the schema, its primary key is new to the table, and
unless one of its references is NULL each of them has a row in its target. The checks
are made by conditions; what they find out about the rows is said here without them.
-/

namespace RelationalStore

namespace Table

variable {t t' : Table} {row : Row} {read : TableReader}

/-- Values that are arranged by their columns make a row of the right length. -/
theorem length_arrange (schema : Schema) (given : Cells) :
    (arrange schema given).length = schema.length := by
  induction schema generalizing given with
  | nil => rfl
  | cons a schema ih => rw [arrange, List.length_cons, List.length_cons, ih]

/-- A row has as many values as the table has columns, in whichever way it is given. -/
theorem length_of_givenRow {columns : Option (List String)} {values : List Value}
    (h : t.givenRow columns values = .ok row) : row.length = t.schema.length := by
  cases columns with
  | none =>
    simp only [givenRow] at h
    split at h
    · next hlength => exact Except.ok.inj h ▸ hlength
    · cases h
  | some names =>
    simp only [givenRow] at h
    split at h
    · cases h
    · split at h
      · cases h
      · split at h
        · cases h
        · rw [← Except.ok.inj h]
          exact length_arrange _ _

/-- The check of every value is the check that the row fits the schema. -/
theorem admits_of_checkValues {schema : Schema} (hlength : row.length = schema.length)
    (h : checkValues schema row = .ok ()) : schema.Admits row := by
  induction schema generalizing row with
  | nil =>
    obtain rfl := List.length_eq_zero_iff.mp hlength
    exact .nil
  | cons a schema ih =>
    cases row with
    | nil => simp at hlength
    | cons v row =>
      obtain ⟨_, hv, h⟩ := bind_eq_ok_iff.mp h
      exact .cons hv (ih (by simpa using hlength) h)

/-- A row that is built fits the columns. -/
theorem admits_of_buildRow {columns : Option (List String)} {values : List Value}
    (h : t.buildRow columns values = .ok row) : t.schema.Admits row := by
  simp only [buildRow, bind_eq_ok_iff, pure_eq_ok_iff] at h
  obtain ⟨row, hrow, _, hcheck, rfl⟩ := h
  exact admits_of_checkValues (length_of_givenRow hrow) hcheck

/-- The cells of a row are its columns with the values next to them. -/
theorem zip_cells {columns : List String} {cells : Cells}
    (h : t.cells row columns = .ok cells) : columns.zip (cells.map Prod.snd) = cells := by
  rw [cells_eq_ok_iff] at h
  induction h with
  | nil => rfl
  | cons hfirst _ ih =>
    obtain ⟨v, _, rfl⟩ := hfirst
    rw [List.map_cons, List.zip_cons_cons, ih]

/-- The equations that a row makes of its primary key hold of the rows with the same one. -/
theorem holdIn_key_iff {key : Cells} (hkey : t.cells row t.primaryKey = .ok key) {found : Row} :
    key.HoldIn t.schema found ↔ t.SameKey row found := by
  rw [← zip_cells hkey]
  exact holdIn_zip_cells_iff hkey rfl

/-- A primary key that passes the check is not that of any row in the table. -/
theorem not_sameKey_of_checkPrimaryKey (hdistinct : t.schema.Distinct) (hne : t.primaryKey ≠ [])
    (h : t.checkPrimaryKey row = .ok ()) : ∀ r ∈ t.rows, ¬ t.SameKey row r := by
  obtain ⟨key, hkey, h⟩ := bind_eq_ok_iff.mp h
  intro r hr hsame
  obtain ⟨i, hi⟩ := List.getElem?_of_mem hr
  have hhold : key.HoldIn t.schema r := (holdIn_key_iff hkey).mpr hsame
  cases hcondition : Condition.conjunction key with
  | none =>
    cases key with
    | nil => exact hne (List.forall₂_nil_right_iff.mp (cells_eq_ok_iff.mp hkey))
    | cons x key => simp [Condition.conjunction] at hcondition
  | some c =>
    rw [hcondition] at h
    obtain ⟨taken, htaken, h⟩ := bind_eq_ok_iff.mp h
    rw [← hcondition] at htaken
    have hmem := (Condition.mem_matching_conjunction_iff hdistinct htaken).mpr ⟨hi, hhold⟩
    split at h
    · next hempty => simp [List.isEmpty_iff.mp hempty] at hmem
    · cases h

/-- The check of references is waived only for a row that has a NULL in one of them. -/
theorem exists_null_of_hasNullReference {fks : List ForeignKey}
    (h : t.hasNullReference row fks = .ok true) :
    ∃ fk ∈ fks, ∃ column ∈ fk.columns, t.schema.value? row column = some .null := by
  induction fks with
  | nil => simp [hasNullReference] at h
  | cons fk fks ih =>
    obtain ⟨cells, hcells, h⟩ := bind_eq_ok_iff.mp h
    split at h
    · next hany =>
      obtain ⟨x, hx, hnull⟩ := List.any_eq_true.mp hany
      obtain ⟨column, hcolumn, v, hv, rfl⟩ := (cells_eq_ok_iff.mp hcells).exists_left hx
      refine ⟨fk, List.mem_cons_self, column, hcolumn, ?_⟩
      cases v with
      | null => exact hv
      | _ => simp [Value.isNull] at hnull
    · obtain ⟨other, hother, hnull⟩ := ih h
      exact ⟨other, List.mem_cons_of_mem _ hother, hnull⟩

/-- A row whose references pass the check is linked to a row of each target. -/
theorem exists_links_of_checkTargets {fks : List ForeignKey}
    (h : t.checkTargets row read fks = .ok ()) :
    ∀ fk ∈ fks, ∃ target, read fk.table = .ok (some target) ∧
      (target.schema.Distinct → fk.columns.length = fk.refColumns.length →
        ∃ found ∈ target.rows, fk.Links t.schema row target.schema found) := by
  induction fks with
  | nil => simp
  | cons fk fks ih =>
    obtain ⟨target?, hread, h⟩ := bind_eq_ok_iff.mp h
    cases target? with
    | none => cases h
    | some target =>
      simp only [bind_eq_ok_iff, monadLift_self, Failure.lift_eq_ok_iff, checkTarget] at h
      obtain ⟨_, ⟨cells, hcells, entries, hentries, hfirst⟩, h⟩ := h
      split at hfirst
      · cases hfirst
      · next hnonempty =>
        refine List.forall_mem_cons.mpr ⟨⟨target, hread, fun hdistinct hlength => ?_⟩, ih h⟩
        obtain ⟨⟨found, i⟩, hentry⟩ := List.exists_mem_of_ne_nil entries
          fun hnil => hnonempty (List.isEmpty_iff.mpr hnil)
        obtain ⟨hfound, hlinks⟩ :=
          (ForeignKey.mem_targetRows_iff hdistinct hlength hcells hentries).mp hentry
        exact ⟨found, List.mem_of_getElem? hfound, hlinks⟩

/-- An insertion that succeeds adds one row at the end, which has passed every check. -/
theorem insert_eq_ok {columns : Option (List String)} {values : List Value}
    (hdistinct : t.schema.Distinct) (h : t.insert columns values read = .ok t') :
    ∃ row, t' = { t with rows := t.rows ++ [row] } ∧ t.schema.Admits row ∧
      (t.primaryKey ≠ [] → ∀ r ∈ t.rows, ¬ t.SameKey row r) ∧
      ((∃ fk ∈ t.foreignKeys, ∃ column ∈ fk.columns,
          t.schema.value? row column = some .null) ∨
        ∀ fk ∈ t.foreignKeys, ∃ target, read fk.table = .ok (some target) ∧
          (target.schema.Distinct → fk.columns.length = fk.refColumns.length →
            ∃ found ∈ target.rows, fk.Links t.schema row target.schema found)) := by
  simp only [insert, bind_eq_ok_iff, monadLift_self, Failure.lift_eq_ok_iff, pure_eq_ok_iff] at h
  obtain ⟨row, hrow, _, hprimary, _, hforeign, rfl⟩ := h
  refine ⟨row, rfl, admits_of_buildRow hrow,
    fun hne => not_sameKey_of_checkPrimaryKey hdistinct hne hprimary, ?_⟩
  simp only [checkForeignKeys, bind_eq_ok_iff, monadLift_self, Failure.lift_eq_ok_iff] at hforeign
  obtain ⟨waived, hwaived, hforeign⟩ := hforeign
  cases waived with
  | true => exact .inl (exists_null_of_hasNullReference hwaived)
  | false =>
    simp only [Bool.false_eq_true, if_false] at hforeign
    exact .inr (exists_links_of_checkTargets hforeign)

/-- A sound table stays sound with a row that has passed every check. -/
theorem Sound.append_row (hsound : t.Sound) (hadmits : t.schema.Admits row)
    (hkey : t.primaryKey ≠ [] → ∀ r ∈ t.rows, ¬ t.SameKey row r) :
    ({ t with rows := t.rows ++ [row] } : Table).Sound := by
  refine { hsound with admits := ?_, keys_differ := fun hne => ?_ }
  · intro r hr
    rcases List.mem_append.mp hr with hr | hr
    · exact hsound.admits r hr
    · exact List.mem_singleton.mp hr ▸ hadmits
  · refine List.pairwise_append.mpr ⟨hsound.keys_differ hne, List.pairwise_singleton _ _, ?_⟩
    intro r hr s hs hsame
    obtain rfl := List.mem_singleton.mp hs
    exact hkey hne r hr hsame.symm

end Table

end RelationalStore
