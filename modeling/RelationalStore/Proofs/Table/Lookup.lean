import RelationalStore.Proofs.Condition.Faults
import RelationalStore.Proofs.Table.Sound

/-!
# Lookups that cannot fail

The store looks keys up with equations that it makes itself, from the cells of one row for
the rows of another table. Where the paired columns have the same types and all rows fit
their columns, the two sides of each equation can be compared, whether the lookup starts
from the row that references or from the row that is referenced.
-/

namespace RelationalStore

/-- Which of two values comes first does not matter for whether they can be compared. -/
theorem Value.comparable_comm (a b : Value) : a.comparable b = b.comparable a := by
  cases a <;> cases b <;> rfl

/-- A value that passes the check of a column is NULL or has the type of the column. -/
theorem Attribute.dataType?_of_checkValue {a : Attribute} {v : Value}
    (h : a.checkValue v = .ok ()) : v.isNull = true ∨ v.dataType? = some a.dataType := by
  have htyped (hpresent : v.dataType? ≠ none) : v.dataType? = some a.dataType := by
    unfold checkValue at h
    split at h
    · next hnone => exact absurd hnone hpresent
    · next type htype =>
      split at h
      · next heq => rw [htype, heq]
      · cases h
  cases v with
  | null => exact .inl rfl
  | integer n => exact .inr (htyped (by simp [Value.dataType?]))
  | char s => exact .inr (htyped (by simp [Value.dataType?]))
  | date d => exact .inr (htyped (by simp [Value.dataType?]))

/-- Values that pass the checks of columns of one type can be compared. -/
theorem Attribute.comparable_of_checkValue {a b : Attribute} {v w : Value}
    (hv : a.checkValue v = .ok ()) (hw : b.checkValue w = .ok ())
    (htype : a.sameType b = true) : v.comparable w = true := by
  have hsame : a.dataType = b.dataType := by
    simp only [sameType, Bool.and_eq_true, beq_iff_eq] at htype
    exact htype.1
  rcases dataType?_of_checkValue hv with hnull | hvType
  · simp [Value.comparable, hnull]
  · rcases dataType?_of_checkValue hw with hnull | hwType
    · simp [Value.comparable, hnull]
    · simp [Value.comparable, hvType, hwType, hsame]

namespace Schema

variable {source target : Schema} {row found : Row} {columns refColumns : List String}

/-- The paired columns of two schemas are there and have the same types. -/
def SameTypes (source target : Schema) : List String → List String → Prop :=
  List.Forall₂ fun column refColumn => ∃ a ∈ source, ∃ b ∈ target,
    a.name = column ∧ b.name = refColumn ∧ a.sameType b = true

/-- In rows that fit their schemas, paired columns have values that can be compared. -/
theorem Admits.exists_comparable (hrow : source.Admits row) (hfound : target.Admits found)
    (hsource : source.Distinct) (htarget : target.Distinct) {a b : Attribute} (ha : a ∈ source)
    (hb : b ∈ target) (htype : a.sameType b = true) :
    ∃ v w, source.value? row a.name = some v ∧ target.value? found b.name = some w ∧
      v.comparable w = true := by
  obtain ⟨i, hi⟩ := exists_position? ha
  obtain ⟨a', v, ha', hname, hv, hcheck⟩ := hrow.exists_value hi
  obtain rfl := hsource.eq_of_name_eq (List.mem_of_getElem? ha') ha hname
  obtain ⟨j, hj⟩ := exists_position? hb
  obtain ⟨b', w, hb', hname', hw, hcheck'⟩ := hfound.exists_value hj
  obtain rfl := htarget.eq_of_name_eq (List.mem_of_getElem? hb') hb hname'
  exact ⟨v, w, hv, hw, Attribute.comparable_of_checkValue hcheck hcheck' htype⟩

end Schema

namespace Table

variable {t target : Table} {row found : Row} {columns refColumns : List String}

/-- The cells of a row that fits the schema can be looked up in all columns that are there. -/
theorem exists_cells (hadmits : t.schema.Admits row)
    (hcolumns : ∀ column ∈ columns, ∃ a ∈ t.schema, a.name = column) :
    ∃ cells, t.cells row columns = .ok cells := by
  refine (FailsOnly.mapM fun column hcolumn => ?_).exists_ok
  obtain ⟨a, ha, rfl⟩ := hcolumns column hcolumn
  obtain ⟨i, hi⟩ := Schema.exists_position? ha
  obtain ⟨_, v, _, _, hv, _⟩ := hadmits.exists_value hi
  exact .of_exists_ok ⟨(a.name, v), cell_eq_ok_iff.mpr ⟨v, hv, rfl⟩⟩

/-- The values of one row can be compared with those of another in the paired columns. -/
theorem comparableIn_zip_cells {cells : Cells} (hcells : t.cells row columns = .ok cells)
    (htypes : t.schema.SameTypes target.schema columns refColumns)
    (hrow : t.schema.Admits row) (hfound : target.schema.Admits found)
    (hdistinct : t.schema.Distinct) (hdistinct' : target.schema.Distinct) :
    Cells.ComparableIn (refColumns.zip (cells.map Prod.snd)) target.schema found := by
  rw [cells_eq_ok_iff] at hcells
  have hpaired : List.Forall₂ (fun refColumn (x : String × Value) =>
      ∃ w, target.schema.value? found refColumn = some w ∧ w.comparable x.2 = true)
      refColumns cells := by
    refine htypes.flip.trans hcells ?_
    rintro _ _ x ⟨a, ha, b, hb, rfl, rfl, htype⟩ ⟨v, hv, rfl⟩
    obtain ⟨v', w, hv', hw, hcomparable⟩ :=
      hrow.exists_comparable hfound hdistinct hdistinct' ha hb htype
    obtain rfl := Option.some.inj (hv.symm.trans hv')
    exact ⟨w, hw, Value.comparable_comm v w ▸ hcomparable⟩
  have hvalues : List.Forall₂ (fun refColumn v =>
      ∃ w, target.schema.value? found refColumn = some w ∧ w.comparable v = true)
      refColumns (cells.map Prod.snd) := List.forall₂_map_right_iff.mpr hpaired
  intro x hx
  exact List.forall₂_zip hvalues hx

end Table

namespace ForeignKey

variable {fk : ForeignKey} {t target : Table} {row found : Row} {key : Cells}

/-- The columns of a foreign key that fits are there. -/
theorem Fits.exists_attribute (h : fk.Fits t.schema target) {column : String}
    (hcolumn : column ∈ fk.columns) : ∃ a ∈ t.schema, a.name = column := by
  obtain ⟨_, _, a, ha, _, _, hname, _⟩ := h.pairs.exists_right hcolumn
  exact ⟨a, ha, hname⟩

/-- From the row that references: the lookup in the target succeeds. -/
theorem Fits.exists_targetRows (h : fk.Fits t.schema target) (ht : t.Sound)
    (htarget : target.Sound) (hrow : t.schema.Admits row) {cells : Cells}
    (hcells : t.cells row fk.columns = .ok cells) :
    ∃ entries, fk.targetRows target cells = .ok entries := by
  refine Condition.exists_matching_conjunction htarget.distinct fun r hr => ?_
  exact Table.comparableIn_zip_cells hcells h.pairs hrow (htarget.admits r hr) ht.distinct
    htarget.distinct

/-- The key of a referenced row has a value for each column of the foreign key. -/
theorem Fits.exists_sourceCells (h : fk.Fits t.schema target)
    (hkey : target.cells found target.primaryKey = .ok key) :
    ∃ cells, fk.sourceCells key = .ok cells := by
  refine (FailsOnly.mapM fun pair hpair => ?_).exists_ok
  obtain ⟨refColumn, column⟩ := pair
  have hcolumn := (h.covers refColumn).mp (List.of_mem_zip hpair).1
  obtain ⟨_, _, v, hv, _⟩ := (Table.cells_eq_ok_iff.mp hkey).exists_right hcolumn
  have hlookup : key.lookup refColumn = some v := (Table.lookup_cells hkey hcolumn).trans hv
  simp only [hlookup]
  exact .ok _

/-- From the row that is referenced: the lookup in the source succeeds. -/
theorem Fits.exists_referencingRows (h : fk.Fits t.schema target) (ht : t.Sound)
    (htarget : target.Sound) (hfound : target.schema.Admits found)
    (hkey : target.cells found target.primaryKey = .ok key) :
    ∃ entries, fk.referencingRows t key = .ok entries := by
  obtain ⟨cells, hcells⟩ := h.exists_sourceCells hkey
  rw [referencingRows, hcells]
  refine Condition.exists_matching_conjunction ht.distinct fun r hr x hx => ?_
  obtain ⟨⟨refColumn, column⟩, hpair, v, hv, rfl⟩ :=
    (sourceCells_eq_ok_iff.mp hcells).exists_left hx
  obtain ⟨a, ha, b, hb, rfl, rfl, htype⟩ := List.forall₂_zip h.pairs.flip hpair
  have hcolumn := (h.covers b.name).mp (List.of_mem_zip hpair).1
  rw [Table.lookup_cells hkey hcolumn] at hv
  obtain ⟨w, v', hw, hv', hcomparable⟩ :=
    (ht.admits r hr).exists_comparable hfound ht.distinct htarget.distinct ha hb htype
  obtain rfl := Option.some.inj (hv.symm.trans hv')
  exact ⟨w, hw, hcomparable⟩

end ForeignKey

end RelationalStore
