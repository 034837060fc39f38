import RelationalStore.Proofs.Table.Links

/-!
# Cells that become NULL

When a row is deleted, the references to it lapse: their columns become NULL in the rows
that hold them. A row that has lapsed in some of its columns agrees with the row that it
was wherever it still has a value. So it can lose links to other rows but never gain
one, and it still fits its schema if the columns admit NULL.
-/

namespace RelationalStore

namespace Schema

/-- Every value of a row may stand in its column, and there is one for each column. -/
def Admits (schema : Schema) (row : Row) : Prop :=
  List.Forall₂ (fun a v => a.checkValue v = .ok ()) schema row

/-- The row with NULL in the columns of the given names. -/
def clear (schema : Schema) (columns : List String) (row : Row) : Row :=
  (columns.filterMap schema.position?).foldl (fun cleared i => cleared.set i .null) row

/-- The second row is the first one with NULL in some columns whose names have a property. -/
structure Lapsed (schema : Schema) (P : String → Prop) (row row' : Row) : Prop where
  length_eq : row'.length = row.length
  /-- A cell is as it was, or it is NULL in a column of the property. -/
  cell : ∀ i : Nat, row'[i]? = row[i]? ∨
    row'[i]? = some .null ∧ ∃ a, schema[i]? = some a ∧ P a.name

variable {schema : Schema} {P Q : String → Prop} {row row' row'' : Row}

/-- A row fits the columns exactly if it has one value for each and each value passes the check
of its column. -/
theorem admits_iff : schema.Admits row ↔ row.length = schema.length ∧
    ∀ (i : Nat) a v, schema[i]? = some a → row[i]? = some v → a.checkValue v = .ok () := by
  rw [Admits, List.forall₂_iff_get]
  simp only [List.get_eq_getElem, List.getElem?_eq_some_iff]
  constructor
  · rintro ⟨hlength, h⟩
    refine ⟨hlength.symm, ?_⟩
    rintro i _ _ ⟨ha, rfl⟩ ⟨hv, rfl⟩
    exact h i ha hv
  · rintro ⟨hlength, h⟩
    exact ⟨hlength.symm, fun i ha hv => h i _ _ ⟨ha, rfl⟩ ⟨hv, rfl⟩⟩

/-- A row that fits the schema has a value in every column, and the column admits it. -/
theorem Admits.exists_value (h : schema.Admits row) {column : String} {i : Nat}
    (hi : schema.position? column = some i) :
    ∃ a v, schema[i]? = some a ∧ a.name = column ∧ schema.value? row column = some v ∧
      a.checkValue v = .ok () := by
  obtain ⟨hlength, hcheck⟩ := admits_iff.mp h
  obtain ⟨a, ha, hname⟩ := getElem?_of_position? hi
  obtain ⟨hbound, _⟩ := List.getElem?_eq_some_iff.mp ha
  obtain ⟨v, hv⟩ : ∃ v, row[i]? = some v :=
    ⟨_, List.getElem?_eq_getElem (by omega)⟩
  exact ⟨a, v, ha, hname, value?_eq_some_iff.mpr ⟨i, hi, hv⟩, hcheck i a v ha hv⟩

/-- Putting NULL at some positions leaves all others as they are. -/
theorem getElem?_foldl_set_null (positions : List Nat) (row : Row) (i : Nat) :
    (positions.foldl (fun cleared j => cleared.set j .null) row)[i]? =
      if i ∈ positions ∧ i < row.length then some .null else row[i]? := by
  induction positions generalizing row with
  | nil => simp
  | cons j positions ih =>
    rw [List.foldl_cons, ih, List.length_set, List.getElem?_set]
    by_cases hj : j = i
    · by_cases hi : i < row.length
      · simp [hj, hi]
      · simp [hj, hi]
    · have hne : i ≠ j := fun h => hj h.symm
      simp [hj, hne]

/-- Setting positions to NULL does not change the length of a row. -/
theorem length_foldl_set_null (positions : List Nat) (row : Row) :
    (positions.foldl (fun cleared j => cleared.set j .null) row).length = row.length := by
  induction positions generalizing row with
  | nil => rfl
  | cons j positions ih => rw [List.foldl_cons, ih, List.length_set]

/-- In a cleared row the columns that were cleared are NULL. -/
theorem value?_clear {columns : List String} {column : String} (hcolumn : column ∈ columns) :
    schema.value? (schema.clear columns row) column =
      (schema.value? row column).map fun _ => .null := by
  rw [value?, value?]
  cases hi : schema.position? column with
  | none => rfl
  | some i =>
    have hmem : i ∈ columns.filterMap schema.position? :=
      List.mem_filterMap.mpr ⟨column, hcolumn, hi⟩
    simp only [Option.bind_some, clear, getElem?_foldl_set_null, hmem, true_and]
    by_cases hbound : i < row.length
    · simp [hbound]
    · simp [hbound]

/-- A cleared row has lapsed in the columns that were cleared. -/
theorem lapsed_clear (columns : List String) (row : Row) :
    schema.Lapsed (· ∈ columns) row (schema.clear columns row) := by
  refine ⟨length_foldl_set_null _ _, fun i => ?_⟩
  rw [clear, getElem?_foldl_set_null]
  by_cases hi : i ∈ columns.filterMap schema.position? ∧ i < row.length
  · right
    obtain ⟨column, hcolumn, hposition⟩ := List.mem_filterMap.mp hi.1
    obtain ⟨a, ha, hname⟩ := getElem?_of_position? hposition
    exact ⟨if_pos hi, a, ha, hname ▸ hcolumn⟩
  · exact .inl (if_neg hi)

/-- In a row that is as it was no column has become NULL. -/
theorem Lapsed.refl (row : Row) : schema.Lapsed P row row :=
  ⟨rfl, fun _ => .inl rfl⟩

/-- The property of the columns that became NULL may be weakened. -/
theorem Lapsed.mono (h : schema.Lapsed P row row') (hPQ : ∀ column, P column → Q column) :
    schema.Lapsed Q row row' :=
  ⟨h.length_eq, fun i => (h.cell i).imp_right fun ⟨hnull, a, ha, hP⟩ =>
    ⟨hnull, a, ha, hPQ _ hP⟩⟩

/-- Lapsing twice is lapsing once. -/
theorem Lapsed.trans (h : schema.Lapsed P row row') (h' : schema.Lapsed P row' row'') :
    schema.Lapsed P row row'' := by
  refine ⟨h'.length_eq.trans h.length_eq, fun i => ?_⟩
  rcases h'.cell i with hsame | hnull
  · rw [hsame]
    exact h.cell i
  · exact .inr hnull

/-- By name as by position: a value is as it was, or it is NULL in a column that lapses. -/
theorem Lapsed.value? (h : schema.Lapsed P row row') (column : String) :
    schema.value? row' column = schema.value? row column ∨
      schema.value? row' column = some .null ∧ P column := by
  unfold Schema.value?
  cases hi : schema.position? column with
  | none => exact .inl rfl
  | some i =>
    rcases h.cell i with hsame | ⟨hnull, a, ha, hP⟩
    · exact .inl hsame
    · obtain ⟨b, hb, hname⟩ := getElem?_of_position? hi
      obtain rfl : a = b := Option.some.inj (ha.symm.trans hb)
      exact .inr ⟨hnull, hname ▸ hP⟩

/-- Where a lapsed row still has a value, it has the value it had before. -/
theorem Lapsed.value?_eq (h : schema.Lapsed P row row') {column : String}
    (hvalue : schema.value? row' column ≠ some .null) :
    schema.value? row' column = schema.value? row column :=
  (h.value? column).resolve_right fun hnull => hvalue hnull.1

/-- A lapsed row agrees with no row that it did not agree with before. -/
theorem Lapsed.agree (h : schema.Lapsed P row row') {target : Schema} {found : Row}
    {refColumns columns : List String}
    (hagree : schema.Agree row' target found refColumns columns) :
    schema.Agree row target found refColumns columns := by
  refine hagree.congr (fun column hcolumn => ?_) fun _ _ => rfl
  obtain ⟨w, hw, hne⟩ := hagree.exists_value hcolumn
  exact (h.value?_eq (by simpa [hw] using hne)).symm

/-- Rows lapse along a walk in which every step lapses, and what a step may clear depends on
the row only in a way that goes back to the row before it has lapsed. -/
theorem lapsed_foldl {α : Type} {clears : α → Row → String → Prop} {step : Row → α → Row}
    (hstep : ∀ a row, schema.Lapsed (clears a row) row (step row a))
    (hback : ∀ a Q row row' column, schema.Lapsed Q row row' → clears a row' column →
      clears a row column) (items : List α) (row : Row) :
    schema.Lapsed (fun column => ∃ a ∈ items, clears a row column) row
      (items.foldl step row) := by
  induction items generalizing row with
  | nil => exact .refl row
  | cons a items ih =>
    have hfirst := hstep a row
    have hrest := ih (step row a)
    refine (hfirst.mono fun column hclears => ⟨a, List.mem_cons_self, hclears⟩).trans
      (hrest.mono ?_)
    rintro column ⟨b, hb, hclears⟩
    exact ⟨b, List.mem_cons_of_mem _ hb, hback b _ row _ column hfirst hclears⟩

/-- A lapsed row fits its schema as before if the columns that lapse admit NULL. -/
theorem Lapsed.admits (h : schema.Lapsed P row row')
    (hnullable : ∀ a ∈ schema, P a.name → a.nullable = true) (hadmits : schema.Admits row) :
    schema.Admits row' := by
  rw [admits_iff] at hadmits ⊢
  refine ⟨h.length_eq.trans hadmits.1, fun i a v ha hv => ?_⟩
  rcases h.cell i with hsame | ⟨hnull, b, hb, hP⟩
  · exact hadmits.2 i a v ha (hsame ▸ hv)
  · obtain rfl : v = .null := Option.some.inj (hv.symm.trans hnull)
    obtain rfl : b = a := Option.some.inj (hb.symm.trans ha)
    simp [Attribute.checkValue, Value.dataType?, hnullable b (List.mem_of_getElem? hb) hP]

end Schema

end RelationalStore
