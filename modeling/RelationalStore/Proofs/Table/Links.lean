import RelationalStore.Proofs.Condition.Equality
import RelationalStore.Table.Reference

/-!
# Links between rows

A row is linked to a row of another table through a foreign key when the paired columns
of the two rows hold the same values. The two ways of looking references up, from the
row that references and from the row that is referenced, both find exactly the linked
rows. They look at different tables and ask for different equations, so that their
agreement rests on what a foreign key and its target have in common.
-/

namespace RelationalStore

namespace Schema

/-- Two rows, each laid out by its schema, have the same values in paired columns. -/
def Agree (source : Schema) (row : Row) (target : Schema) (found : Row) :
    List String → List String → Prop :=
  List.Forall₂ fun refColumn column => ∃ v w, target.value? found refColumn = some v ∧
    source.value? row column = some w ∧ v.Same w

instance (a b : Value) : Decidable (a.Same b) :=
  inferInstanceAs (Decidable (_ = _))

instance (x y : Option Value) : Decidable (∃ v w, x = some v ∧ y = some w ∧ v.Same w) :=
  match x, y with
  | some v, some w => decidable_of_iff (v.Same w) (by simp)
  | none, _ => isFalse (by simp)
  | _, none => isFalse (by simp)

instance (source : Schema) (row : Row) (target : Schema) (found : Row)
    (refColumns columns : List String) :
    Decidable (source.Agree row target found refColumns columns) :=
  inferInstanceAs (Decidable (List.Forall₂ _ refColumns columns))

variable {source target : Schema} {row found : Row} {refColumns columns : List String}

/-- Rows that agree have a value in each paired column, and none of them is NULL. -/
theorem Agree.exists_value (h : source.Agree row target found refColumns columns)
    {column : String} (hcolumn : column ∈ columns) :
    ∃ w, source.value? row column = some w ∧ w ≠ .null := by
  induction h with
  | nil => cases hcolumn
  | cons hfirst _ ih =>
    rcases List.mem_cons.mp hcolumn with rfl | hcolumn
    · obtain ⟨v, w, _, hw, hsame⟩ := hfirst
      refine ⟨w, hw, ?_⟩
      rintro rfl
      exact Value.not_same_null hsame
    · exact ih hcolumn

/-- Whether rows agree depends only on their values in the paired columns. -/
theorem Agree.congr (h : source.Agree row target found refColumns columns) {row' found' : Row}
    (hrow : ∀ column ∈ columns, source.value? row' column = source.value? row column)
    (hfound : ∀ column ∈ refColumns,
      target.value? found' column = target.value? found column) :
    source.Agree row' target found' refColumns columns := by
  induction h with
  | nil => exact .nil
  | cons hfirst _ ih =>
    rw [List.forall_mem_cons] at hrow hfound
    refine .cons ?_ (ih hrow.2 hfound.2)
    rwa [hrow.1, hfound.1]

/-- Agreement in one list of columns goes both ways. -/
theorem Agree.symm (h : source.Agree row source found columns columns) :
    source.Agree found source row columns columns := by
  have h := List.forall₂_same.mp h
  refine List.forall₂_same.mpr fun column hcolumn => ?_
  obtain ⟨v, w, hv, hw, hsame⟩ := h column hcolumn
  exact ⟨w, v, hw, hv, hsame.symm⟩

end Schema

/-- The row of the source has, in the columns of the foreign key, the values that the row
of the target has in the columns paired with them. -/
def ForeignKey.Links (fk : ForeignKey) (source : Schema) (row : Row) (target : Schema)
    (found : Row) : Prop :=
  source.Agree row target found fk.refColumns fk.columns

instance (fk : ForeignKey) (source : Schema) (row : Row) (target : Schema) (found : Row) :
    Decidable (fk.Links source row target found) :=
  inferInstanceAs (Decidable (source.Agree row target found fk.refColumns fk.columns))

namespace Table

variable {t : Table} {row : Row} {columns : List String} {cells : Cells}

/-- A cell that is looked up by its column has the value of the row in that column. -/
theorem lookup_cells (h : t.cells row columns = .ok cells) {column : String}
    (hcolumn : column ∈ columns) : cells.lookup column = t.schema.value? row column := by
  rw [cells_eq_ok_iff] at h
  induction h with
  | nil => cases hcolumn
  | @cons first x _ _ hfirst _ ih =>
    obtain ⟨v, hv, rfl⟩ := hfirst
    by_cases hname : column = first
    · rw [hname, List.lookup_cons_self, hv]
    · rw [List.lookup_cons, beq_false_of_ne hname]
      exact ih ((List.mem_cons.mp hcolumn).resolve_left hname)

/-- The equations that a row makes of its own cells hold of the rows that agree with it. -/
theorem holdIn_zip_cells_iff (h : t.cells row columns = .ok cells) {target : Schema}
    {found : Row} {refColumns : List String} (hlength : columns.length = refColumns.length) :
    Cells.HoldIn (refColumns.zip (cells.map Prod.snd)) target found ↔
      t.schema.Agree row target found refColumns columns := by
  rw [cells_eq_ok_iff] at h
  induction h generalizing refColumns with
  | nil =>
    obtain rfl := List.length_eq_zero_iff.mp hlength.symm
    simp [Cells.HoldIn, Schema.Agree]
  | cons hfirst _ ih =>
    obtain ⟨w, hw, rfl⟩ := hfirst
    cases refColumns with
    | nil => simp at hlength
    | cons refColumn refColumns =>
      have ih := @ih refColumns (by simpa using hlength)
      simp only [Cells.HoldIn, Schema.Agree] at ih
      simp only [Cells.HoldIn, Schema.Agree, List.map_cons, List.zip_cons_cons,
        List.forall_mem_cons, ih, List.forall₂_cons, hw, Option.some.injEq, exists_eq_left',
        exists_and_left]

end Table

namespace ForeignKey

variable {fk : ForeignKey} {source target : Table} {row found : Row}

/-- A linked row has a value in each column of the foreign key, and none of them is NULL. -/
theorem Links.exists_value {source target : Schema} (h : fk.Links source row target found)
    {column : String} (hcolumn : column ∈ fk.columns) :
    ∃ w, source.value? row column = some w ∧ w ≠ .null :=
  Schema.Agree.exists_value h hcolumn

/-- The cells that a key is looked up by: each column of the foreign key with the value
that the key has for the column paired with it. -/
theorem sourceCells_eq_ok_iff {key cells : Cells} :
    fk.sourceCells key = .ok cells ↔
      List.Forall₂ (fun pair x => ∃ v, key.lookup pair.1 = some v ∧ x = (pair.2, v))
        (fk.refColumns.zip fk.columns) cells := by
  rw [sourceCells, mapM_eq_ok_iff]
  constructor
  · refine List.Forall₂.imp fun pair x hx => ?_
    cases hv : key.lookup pair.1 with
    | none => simp [hv] at hx
    | some v =>
      simp only [hv, Except.ok.injEq] at hx
      exact ⟨v, rfl, hx.symm⟩
  · refine List.Forall₂.imp fun pair x hx => ?_
    obtain ⟨v, hv, rfl⟩ := hx
    simp [hv]

/-- The equations that a key makes hold of the rows that are linked to the row of the key. -/
theorem holdIn_sourceCells_iff {columns : List String} {key : Cells}
    (hkey : target.cells found columns = .ok key) {source : Schema} {refs sources : List String}
    (hlength : sources.length = refs.length) (hcover : ∀ c ∈ refs, c ∈ columns) {cells : Cells}
    (hcells : List.Forall₂ (fun pair x => ∃ v, key.lookup pair.1 = some v ∧ x = (pair.2, v))
      (refs.zip sources) cells) :
    cells.HoldIn source row ↔ source.Agree row target.schema found refs sources := by
  induction refs generalizing sources cells with
  | nil =>
    obtain rfl := List.length_eq_zero_iff.mp hlength
    rw [List.zip_nil_left, List.forall₂_nil_left_iff] at hcells
    simp [hcells, Cells.HoldIn, Schema.Agree]
  | cons refColumn refs ih =>
    cases sources with
    | nil => simp at hlength
    | cons column sources =>
      rw [List.forall_mem_cons] at hcover
      simp only [List.zip_cons_cons, List.forall₂_cons_left_iff] at hcells
      obtain ⟨_, others, ⟨v, hv, rfl⟩, hothers, rfl⟩ := hcells
      have ih := ih (by simpa using hlength) hcover.2 hothers
      rw [Table.lookup_cells hkey hcover.1] at hv
      simp only [Cells.HoldIn, Schema.Agree] at ih
      simp only [Cells.HoldIn, Schema.Agree, List.forall_mem_cons, ih, List.forall₂_cons, hv,
        Option.some.injEq, exists_eq_left', exists_and_left]
      refine and_congr_left fun _ => exists_congr fun w => and_congr_right fun _ => ?_
      exact ⟨Value.Same.symm, Value.Same.symm⟩

/-- From the row that references: the rows found in the target are those it is linked to. -/
theorem mem_targetRows_iff (hdistinct : target.schema.Distinct)
    (hlength : fk.columns.length = fk.refColumns.length) {cells : Cells}
    (hcells : source.cells row fk.columns = .ok cells) {entries : List (Row × Nat)}
    (h : fk.targetRows target cells = .ok entries) {i : Nat} :
    (found, i) ∈ entries ↔
      target.rows[i]? = some found ∧ fk.Links source.schema row target.schema found := by
  rw [Condition.mem_matching_conjunction_iff hdistinct h,
    Table.holdIn_zip_cells_iff hcells hlength, Links]

/-- From the row that is referenced: the rows found in the source are those linked to it. -/
theorem mem_referencingRows_iff (hdistinct : source.schema.Distinct)
    (hlength : fk.columns.length = fk.refColumns.length) {columns : List String} {key : Cells}
    (hkey : target.cells found columns = .ok key) (hcover : ∀ c ∈ fk.refColumns, c ∈ columns)
    {entries : List (Row × Nat)} (h : fk.referencingRows source key = .ok entries) {i : Nat} :
    (row, i) ∈ entries ↔
      source.rows[i]? = some row ∧ fk.Links source.schema row target.schema found := by
  obtain ⟨cells, hcells, h⟩ := bind_eq_ok_iff.mp h
  rw [Condition.mem_matching_conjunction_iff hdistinct h,
    holdIn_sourceCells_iff hkey hlength hcover (sourceCells_eq_ok_iff.mp hcells), Links]

end ForeignKey

end RelationalStore
