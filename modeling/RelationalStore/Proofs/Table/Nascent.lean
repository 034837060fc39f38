import RelationalStore.Proofs.Table.Sound
import RelationalStore.Table.Definition

/-!
# Tables that are being defined

A definition builds its table up step by step. Columns are added first, and then some of
them are marked as the primary key. After each step the table has no rows and is sound as
far as it is built.
-/

namespace RelationalStore

namespace Table

variable {t t' : Table} {name : String}

/-- Among different names, changing the column of a name is changing every column of it. -/
theorem modifyAttribute_eq_map {schema : Schema} (hdistinct : schema.Distinct) (name : String)
    (change : Attribute → Attribute) :
    modifyAttribute.go name change schema =
      schema.map fun a => if a.name = name then change a else a := by
  induction schema with
  | nil => rfl
  | cons a rest ih =>
    obtain ⟨hnew, hrest⟩ := List.nodup_cons.mp hdistinct
    rw [modifyAttribute.go, List.map_cons]
    by_cases hname : a.name = name
    · have hothers : rest.map (fun b => if b.name = name then change b else b) = rest := by
        conv_rhs => rw [← List.map_id rest]
        refine List.map_congr_left fun b hb => if_neg fun hb' => hnew ?_
        exact List.mem_map.mpr ⟨b, hb, hb'.trans hname.symm⟩
      simp [hname, hothers]
    · simp [hname, ih hrest]

/-- Where names are distinct, a column is found under its name. -/
theorem attribute?_eq_some_iff (hdistinct : t.schema.Distinct) {a : Attribute} :
    t.attribute? name = some a ↔ a ∈ t.schema ∧ a.name = name := by
  constructor
  · intro h
    exact ⟨List.mem_of_find?_eq_some h, by simpa using List.find?_some h⟩
  · rintro ⟨ha, rfl⟩
    have hsome : (t.attribute? a.name).isSome := List.find?_isSome.mpr ⟨a, ha, by simp⟩
    obtain ⟨b, hb⟩ := Option.isSome_iff_exists.mp hsome
    have hname : b.name = a.name := by simpa using List.find?_some hb
    rw [hb, hdistinct.eq_of_name_eq (List.mem_of_find?_eq_some hb) ha hname]

/-- Whether a column admits NULL is read off the column of its name. -/
theorem nullable_attribute?_iff (hdistinct : t.schema.Distinct) :
    ((t.attribute? name).map (·.nullable)).getD false = true ↔
      ∃ a ∈ t.schema, a.name = name ∧ a.nullable = true := by
  constructor
  · intro h
    cases ha : t.attribute? name with
    | none => simp [ha] at h
    | some a =>
      obtain ⟨hmem, hname⟩ := (attribute?_eq_some_iff hdistinct).mp ha
      exact ⟨a, hmem, hname, by simpa [ha] using h⟩
  · rintro ⟨a, ha, hname, hnullable⟩
    simp [(attribute?_eq_some_iff hdistinct).mpr ⟨ha, hname⟩, hnullable]

/-- A table that is being defined: it has a name and no rows, nothing references it, and
it is sound as far as it goes. -/
structure Nascent (name : String) (t : Table) : Prop where
  name_eq : t.name = name
  rows_eq : t.rows = []
  referencedBy_eq : t.referencedBy = SortedMap.empty
  sound : t.Sound

/-- A table without rows is sound if its columns and keys are. -/
theorem sound_of_rows_eq_nil (hrows : t.rows = []) (hdistinct : t.schema.Distinct)
    (hprimary : ∀ a ∈ t.schema, a.primary = true ↔ a.name ∈ t.primaryKey)
    (hdefined : ∀ name ∈ t.primaryKey, ∃ a ∈ t.schema, a.name = name)
    (hrequired : ∀ a ∈ t.schema, a.name ∈ t.primaryKey → a.nullable = false)
    (hnullable : ∀ fk ∈ t.foreignKeys, fk.nullable = true ↔
      ∀ column ∈ fk.columns, ∃ a ∈ t.schema, a.name = column ∧ a.nullable = true) :
    t.Sound :=
  ⟨hdistinct, hprimary, hdefined, hrequired, hnullable, by simp [hrows], by simp [hrows]⟩

/-- A table without columns is nascent. -/
theorem nascent_blank (name : String) : (blank name).Nascent name :=
  ⟨rfl, rfl, rfl, sound_of_rows_eq_nil rfl List.nodup_nil (by simp [blank]) (by simp [blank])
    (by simp [blank]) (by simp [blank])⟩
/-- A column that is in no key is added under a new name. -/
theorem Nascent.addColumn (ht : t.Nascent name) (hkey : t.primaryKey = [])
    (hfks : t.foreignKeys = []) {a : Attribute} (hfresh : ∀ b ∈ t.schema, b.name ≠ a.name)
    (hprimary : a.primary = false) :
    ({ t with schema := t.schema ++ [a] } : Table).Nascent name := by
  refine ⟨ht.name_eq, ht.rows_eq, ht.referencedBy_eq,
    sound_of_rows_eq_nil ht.rows_eq ?_ ?_ (by simp [hkey]) (by simp [hkey]) (by simp [hfks])⟩
  · rw [Schema.Distinct, List.map_append, List.map_singleton]
    refine List.nodup_append.mpr ⟨ht.sound.distinct, List.nodup_singleton _, ?_⟩
    intro x hx y hy
    obtain ⟨b, hb, rfl⟩ := List.mem_map.mp hx
    exact List.mem_singleton.mp hy ▸ hfresh b hb
  · intro b hb
    rcases List.mem_append.mp hb with hb | hb
    · exact ht.sound.primary_iff b hb
    · rw [List.mem_singleton.mp hb]
      simp [hprimary, hkey]

/-- Columns are added under new names only, and none of them is in a key yet. -/
theorem addColumns_nascent {columns : List ColumnDefinition} (ht : t.Nascent name)
    (hkey : t.primaryKey = []) (hfks : t.foreignKeys = [])
    (h : t.addColumns columns = .ok t') :
    t'.Nascent name ∧ t'.primaryKey = [] ∧ t'.foreignKeys = [] := by
  induction columns generalizing t with
  | nil => exact Except.ok.inj h ▸ ⟨ht, hkey, hfks⟩
  | cons c columns ih =>
    simp only [addColumns] at h
    split at h
    · cases h
    · next hfresh =>
      split at h
      · cases h
      · refine ih (ht.addColumn hkey hfks (fun b hb hname => hfresh ?_) rfl) hkey hfks h
        exact List.find?_isSome.mpr ⟨b, hb, by simpa [Attribute.plain] using hname⟩

/-- A column enters the primary key together with the mark that it belongs to it. -/
theorem Nascent.addKeyColumn (ht : t.Nascent name) (hfks : t.foreignKeys = []) {column : String}
    (hpresent : ∃ a ∈ t.schema, a.name = column) :
    ({ t.modifyAttribute column Attribute.asPrimary with
      primaryKey := if column ∈ t.primaryKey then t.primaryKey else t.primaryKey ++ [column] } :
        Table).Nascent name := by
  have hmap := modifyAttribute_eq_map ht.sound.distinct column Attribute.asPrimary
  have hname (a : Attribute) : (if a.name = column then a.asPrimary else a).name = a.name := by
    split
    · rfl
    · rfl
  have hkey (name : String) :
      name ∈ (if column ∈ t.primaryKey then t.primaryKey else t.primaryKey ++ [column]) ↔
        name = column ∨ name ∈ t.primaryKey := by
    by_cases hcolumn : column ∈ t.primaryKey
    · simp only [hcolumn, if_true]
      exact ⟨.inr, fun h => h.elim (fun heq => heq ▸ hcolumn) id⟩
    · simp [hcolumn, or_comm]
  refine ⟨ht.name_eq, ht.rows_eq, ht.referencedBy_eq,
    sound_of_rows_eq_nil ht.rows_eq ?_ ?_ ?_ ?_ (by simp [modifyAttribute, hfks])⟩
  · simp only [Schema.Distinct, modifyAttribute, hmap, List.map_map, Function.comp_def, hname]
    exact ht.sound.distinct
  · simp only [modifyAttribute, hmap, List.forall_mem_map, hname, hkey]
    intro a ha
    by_cases hcolumn : a.name = column
    · simp [hcolumn, Attribute.asPrimary]
    · simpa [hcolumn] using ht.sound.primary_iff a ha
  · simp only [modifyAttribute, hmap, hkey, List.mem_map, exists_exists_and_eq_and, hname]
    rintro key (rfl | hmem)
    · exact hpresent
    · exact ht.sound.key_defined _ hmem
  · simp only [modifyAttribute, hmap, List.forall_mem_map, hname, hkey]
    intro a ha hmem
    by_cases hcolumn : a.name = column
    · simp [hcolumn, Attribute.asPrimary]
    · simpa [hcolumn] using ht.sound.key_required a ha (hmem.resolve_left hcolumn)

/-- A nascent table without foreign keys stays so when it is given a primary key. -/
theorem addKeyColumns_nascent {columns : List String} (ht : t.Nascent name)
    (hfks : t.foreignKeys = []) (h : t.addKeyColumns columns = .ok t') :
    t'.Nascent name ∧ t'.foreignKeys = [] := by
  induction columns generalizing t with
  | nil => exact Except.ok.inj h ▸ ⟨ht, hfks⟩
  | cons column columns ih =>
    simp only [addKeyColumns] at h
    split at h
    · cases h
    · next hfound =>
      have hpresent : ∃ a ∈ t.schema, a.name = column := by
        simpa [attribute?] using hfound
      exact ih (ht.addKeyColumn hfks hpresent) hfks h

end Table

end RelationalStore
