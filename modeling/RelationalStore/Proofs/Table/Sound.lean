import RelationalStore.Proofs.Collection.Paired
import RelationalStore.Proofs.Table.Lapse

/-!
# Sound tables

A table is sound when its columns, keys and rows keep the rules that its definition lays
down. The rules for columns and keys never change after the definition. Those for rows
are kept by rows that go and by cells that become NULL, because no column of the primary
key admits NULL and a foreign key admits it only if all its columns do.
-/

namespace RelationalStore

/-- A foreign key of a table fits its target: it references the whole primary key and
nothing else, and it pairs columns of the same type. -/
structure ForeignKey.Fits (fk : ForeignKey) (source : Schema) (target : Table) : Prop where
  covers : ∀ name, name ∈ fk.refColumns ↔ name ∈ target.primaryKey
  pairs : List.Forall₂ (fun column refColumn => ∃ a ∈ source, ∃ b ∈ target.schema,
    a.name = column ∧ b.name = refColumn ∧ a.sameType b = true) fk.columns fk.refColumns

namespace Table

/-- Two rows of the table have the same primary key. -/
def SameKey (t : Table) (row row' : Row) : Prop :=
  t.schema.Agree row t.schema row' t.primaryKey t.primaryKey

/-- What every table keeps to from its definition on. -/
structure Sound (t : Table) : Prop where
  /-- The columns have different names. -/
  distinct : t.schema.Distinct
  /-- Exactly the columns of the primary key are marked as such. -/
  primary_iff : ∀ a ∈ t.schema, a.primary = true ↔ a.name ∈ t.primaryKey
  /-- The primary key consists of columns. -/
  key_defined : ∀ name ∈ t.primaryKey, ∃ a ∈ t.schema, a.name = name
  /-- No column of the primary key admits NULL. -/
  key_required : ∀ a ∈ t.schema, a.name ∈ t.primaryKey → a.nullable = false
  /-- A foreign key admits NULL when all its columns do. -/
  nullable_iff : ∀ fk ∈ t.foreignKeys, fk.nullable = true ↔
    ∀ column ∈ fk.columns, ∃ a ∈ t.schema, a.name = column ∧ a.nullable = true
  /-- Every row fits the columns. -/
  admits : ∀ row ∈ t.rows, t.schema.Admits row
  /-- No two rows have the same primary key, if there is one. -/
  keys_differ : t.primaryKey ≠ [] → t.rows.Pairwise fun row row' => ¬ t.SameKey row row'

/-- The second table is the first one after cells became NULL in columns of a property. -/
structure Lapsed (P : String → Prop) (t t' : Table) : Prop where
  rest : t' = { t with rows := t'.rows }
  rows : List.Forall₂ (t.schema.Lapsed P) t.rows t'.rows

variable {P Q : String → Prop} {t t' t'' : Table}

/-- No row has NULL in its primary key. -/
theorem Sound.exists_key_value (h : t.Sound) {row : Row} (hrow : row ∈ t.rows) {column : String}
    (hcolumn : column ∈ t.primaryKey) :
    ∃ v, t.schema.value? row column = some v ∧ v ≠ .null := by
  obtain ⟨a, ha, rfl⟩ := h.key_defined column hcolumn
  obtain ⟨i, hi⟩ := Schema.exists_position? ha
  obtain ⟨b, v, hb, hname, hv, hcheck⟩ := (h.admits row hrow).exists_value hi
  refine ⟨v, hv, ?_⟩
  rintro rfl
  have hrequired := h.key_required b (List.mem_of_getElem? hb) (hname ▸ hcolumn)
  simp [Attribute.checkValue, Value.dataType?, hrequired] at hcheck

/-- Rows at different positions have different primary keys. -/
theorem Sound.not_sameKey (h : t.Sound) (hkey : t.primaryKey ≠ []) {i j : Nat} {row row' : Row}
    (hij : i ≠ j) (hi : t.rows[i]? = some row) (hj : t.rows[j]? = some row') :
    ¬ t.SameKey row row' := by
  have hdiffer := List.pairwise_iff_getElem.mp (h.keys_differ hkey)
  obtain ⟨hi', rfl⟩ := List.getElem?_eq_some_iff.mp hi
  obtain ⟨hj', rfl⟩ := List.getElem?_eq_some_iff.mp hj
  rcases Nat.lt_or_gt_of_ne hij with hlt | hgt
  · exact hdiffer i j hi' hj' hlt
  · exact fun hsame => hdiffer j i hj' hi' hgt hsame.symm

/-- A row has the primary key that it has, as no part of it is NULL. -/
theorem Sound.sameKey_self (h : t.Sound) {row : Row} (hrow : row ∈ t.rows) :
    t.SameKey row row := by
  refine List.forall₂_same.mpr fun column hcolumn => ?_
  obtain ⟨v, hv, hne⟩ := h.exists_key_value hrow hcolumn
  exact ⟨v, v, hv, hv, Value.same_self hne⟩

/-- With a primary key no row is stored twice. -/
theorem Sound.nodup_rows (h : t.Sound) (hkey : t.primaryKey ≠ []) : t.rows.Nodup := by
  refine (h.keys_differ hkey).imp_of_mem fun hrow _ hdiffer heq => ?_
  exact hdiffer (heq ▸ h.sameKey_self hrow)

/-- The primary key of a row does not lapse with columns that admit NULL. -/
theorem Sound.value?_key_eq (h : t.Sound)
    (hnullable : ∀ a ∈ t.schema, P a.name → a.nullable = true) {row row' : Row}
    (hrow : t.schema.Lapsed P row row') {column : String} (hcolumn : column ∈ t.primaryKey) :
    t.schema.value? row' column = t.schema.value? row column := by
  refine (hrow.value? column).resolve_right fun ⟨_, hP⟩ => ?_
  obtain ⟨a, ha, rfl⟩ := h.key_defined column hcolumn
  simpa [hnullable a ha hP] using h.key_required a ha hcolumn

namespace Lapsed

/-- A table in which cells became NULL has the name that it had. -/
theorem name_eq (h : t.Lapsed P t') : t'.name = t.name := by rw [h.rest]

/-- A table in which cells became NULL has the columns that it had. -/
theorem schema_eq (h : t.Lapsed P t') : t'.schema = t.schema := by rw [h.rest]

/-- A table in which cells became NULL has the foreign keys that it had. -/
theorem foreignKeys_eq (h : t.Lapsed P t') : t'.foreignKeys = t.foreignKeys := by rw [h.rest]

/-- In a table that is as it was no cell has become NULL. -/
theorem refl (t : Table) : t.Lapsed P t :=
  ⟨rfl, List.forall₂_same.mpr fun row _ => .refl row⟩

/-- The property of the columns in which cells became NULL may be weakened. -/
theorem mono (h : t.Lapsed P t') (hPQ : ∀ column, P column → Q column) : t.Lapsed Q t' :=
  ⟨h.rest, h.rows.imp fun _ _ hrow => hrow.mono hPQ⟩

/-- Cells that became NULL in two steps may have done so in one. -/
theorem trans (h : t.Lapsed P t') (h' : t'.Lapsed P t'') : t.Lapsed P t'' := by
  refine ⟨by rw [h'.rest, h.rest], h.rows.trans h'.rows fun _ _ _ hrow hrow' => ?_⟩
  rw [h.schema_eq] at hrow'
  exact hrow.trans hrow'

/-- Columns that admit NULL may lapse in a sound table. -/
theorem sound (h : t.Lapsed P t') (hnullable : ∀ a ∈ t.schema, P a.name → a.nullable = true)
    (hsound : t.Sound) : t'.Sound := by
  have hrows := h.rows
  refine h.rest ▸ { hsound with admits := ?_, keys_differ := ?_ }
  · intro row' hrow'
    obtain ⟨row, hrow, hlapsed⟩ := hrows.exists_left hrow'
    exact hlapsed.admits hnullable (hsound.admits row hrow)
  · intro hne
    refine hrows.pairwise (hsound.keys_differ hne) fun r s r' s' hr hs hdiffer hsame => ?_
    exact hdiffer (hsame.congr (fun _ hc => (hsound.value?_key_eq hnullable hr hc).symm)
      fun _ hc => (hsound.value?_key_eq hnullable hs hc).symm)

end Lapsed

end Table

end RelationalStore
