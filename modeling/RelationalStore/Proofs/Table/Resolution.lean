import RelationalStore.Proofs.Table.Grouping
import RelationalStore.Proofs.Table.Qualified

/-!
# Resolving names in a product

A product loses the names of its tables, and only the columns still know under which name their
table was read. This suffices to find them. If the tables are read under different names, a
column with a qualifier is found behind the columns of the earlier tables, at the place that it
has in its own one. A bare name is found as long as no second table has a column of the name.
-/

namespace RelationalStore

/-- An attribute answers to a reference by its name and, if there is a qualifier, its table. -/
theorem Attribute.answersTo_iff {a : Attribute} {table : Option String} {column : String} :
    a.answersTo table column = true ↔ a.name = column ∧ ∀ q ∈ table, a.table = q := by
  cases table <;> simp [answersTo]

namespace Schema

variable {schema : Schema} {column : String}

/-- Among different names the position of a column is that of the attribute of its name. -/
theorem Distinct.position?_eq_some_iff (hdistinct : schema.Distinct) {i : Nat} :
    schema.position? column = some i ↔ ∃ a, schema[i]? = some a ∧ a.name = column := by
  have hmem : i ∈ schema.positions (·.answersTo none column) ↔
      ∃ a, schema[i]? = some a ∧ a.answersTo none column = true := mem_positions_iff
  rw [hdistinct.positions_eq, Option.mem_toList] at hmem
  simpa [Attribute.answersTo_iff] using hmem

/-- A reference fails for the sake of its column if its qualifier is there and no attribute
answers to it. -/
theorem resolve_eq_whereColumn {q : String} (htable : ∃ a ∈ schema, a.table = q)
    (hnone : ∀ i : Nat, ¬ ∃ a, schema[i]? = some a ∧ a.answersTo (some q) column = true) :
    schema.resolve (some q) column = .error (.whereColumn (q ++ "." ++ column)) := by
  have hpositions : schema.positions (·.answersTo (some q) column) = [] := by
    apply List.eq_nil_iff_forall_not_mem.mpr
    intro i hi
    exact hnone i (mem_positions_iff.mp hi)
  have hany : schema.any (·.table == q) = true := by simpa using htable
  rw [resolve, hpositions]
  simp only [hany, if_true, columnReference]

end Schema

namespace Query

/-- The source that reads a table under its own name and the alias. -/
def sourceOf (entry : Table × Option String) : Source :=
  ⟨entry.1.name, entry.2⟩

/-- Tables that can be told apart in their product. -/
structure ToldApart (entries : List (Table × Option String)) : Prop where
  /-- Each of the tables has a column. -/
  nonempty : ∀ e ∈ entries, e.1.schema ≠ []
  /-- The columns of each table have different names. -/
  distinct : ∀ e ∈ entries, e.1.schema.Distinct
  /-- Each table is read under a name. -/
  named : ∀ e ∈ entries, (sourceOf e).reference ≠ ""
  /-- No two tables are read under the same name. -/
  apart : (entries.map fun e => (sourceOf e).reference).Nodup

variable {entries : List (Table × Option String)} {e e' : Table × Option String} {k k' : Nat}
  {column : String}

/-- The tables stand at the positions of their entries. -/
theorem getElem?_tables (he : entries[k]? = some e) :
    (entries.map Prod.fst)[k]? = some e.1 := by
  rw [List.getElem?_map, he, Option.map_some]

/-- If each table is read under a name, every column of the product is qualified by it. -/
theorem schema_productOf (hnamed : ∀ e ∈ entries, (sourceOf e).reference ≠ "") :
    (productOf entries).schema =
      joinedSchema (entries.map sourceOf) (entries.map Prod.fst) := by
  have hschema : (productOf entries).schema =
      Table.unit.schema ++ entries.flatMap fun e => e.1.qualifiedSchema e.2 :=
    schema_foldl_product entries rfl
  have hunit : Table.unit.schema = [] := rfl
  rw [hschema, hunit, List.nil_append, joinedSchema, List.zip_map', List.flatMap_map]
  apply List.flatMap_congr
  intro e he
  rw [Table.qualifiedSchema_eq_map]
  apply List.map_congr_left
  intro a _
  obtain ⟨t, asName⟩ := e
  cases asName with
  | some name => rfl
  | none =>
    have hname : t.name ≠ "" := hnamed _ he
    simp [sourceOf, Source.reference, hname]

namespace ToldApart

variable (h : ToldApart entries)

include h

/-- Tables that are read under the same name are the same. -/
theorem eq_of_reference_eq (he : entries[k]? = some e) (he' : entries[k']? = some e')
    (hsame : (sourceOf e).reference = (sourceOf e').reference) : k = k' := by
  have hk : k < (entries.map fun e => (sourceOf e).reference).length := by
    rw [List.length_map]
    exact (List.getElem?_eq_some_iff.mp he).1
  apply (List.getElem?_inj hk h.apart).mp
  rw [List.getElem?_map, List.getElem?_map, he, he', Option.map_some, Option.map_some, hsame]

/-- What answers to a reference in the product is the column of the name in a table that is
read under the qualifier, if there is one, and it stands behind the columns of the earlier
tables. -/
theorem exists_answering_iff {table : Option String} {i : Nat} :
    (∃ a, (productOf entries).schema[i]? = some a ∧ a.answersTo table column = true) ↔
      ∃ k e p, entries[k]? = some e ∧ (∀ q ∈ table, (sourceOf e).reference = q) ∧
        e.1.schema.position? column = some p ∧
        i = columnsBefore (entries.map Prod.fst) k + p := by
  have hlength : (entries.map sourceOf).length = (entries.map Prod.fst).length := by
    rw [List.length_map, List.length_map]
  rw [schema_productOf h.named]
  constructor
  · rintro ⟨_, hi, hanswers⟩
    obtain ⟨k, _, _, p, b, hs, ht, hb, rfl, rfl⟩ := exists_of_getElem?_joinedSchema hlength hi
    rw [List.getElem?_map, Option.map_eq_some_iff] at hs ht
    obtain ⟨e, he, rfl⟩ := hs
    obtain ⟨e', he', rfl⟩ := ht
    obtain rfl := Option.some.inj (he.symm.trans he')
    obtain ⟨hname, hqualifier⟩ := Attribute.answersTo_iff.mp hanswers
    have hdistinct := h.distinct e (List.mem_of_getElem? he)
    exact ⟨k, e, p, he, hqualifier, hdistinct.position?_eq_some_iff.mpr ⟨b, hb, hname⟩, rfl⟩
  · rintro ⟨k, e, p, he, hqualifier, hp, rfl⟩
    obtain ⟨a, ha, hname⟩ := Schema.getElem?_of_position? hp
    have hs : (entries.map sourceOf)[k]? = some (sourceOf e) := by
      rw [List.getElem?_map, he, Option.map_some]
    exact ⟨_, getElem?_joinedSchema hlength hs (getElem?_tables he) ha,
      Attribute.answersTo_iff.mpr ⟨hname, hqualifier⟩⟩

/-- The name under which a table is read is a qualifier in the product. -/
theorem exists_table (he : entries[k]? = some e) :
    ∃ a ∈ (productOf entries).schema, a.table = (sourceOf e).reference := by
  obtain ⟨a, ha⟩ := List.exists_mem_of_ne_nil _ (h.nonempty e (List.mem_of_getElem? he))
  obtain ⟨p, hp⟩ := Schema.exists_position? ha
  have hqualifier : ∀ q ∈ some (sourceOf e).reference, (sourceOf e).reference = q := by simp
  obtain ⟨b, hb, hanswers⟩ := h.exists_answering_iff.mpr ⟨k, e, p, he, hqualifier, hp, rfl⟩
  exact ⟨b, List.mem_of_getElem? hb, (Attribute.answersTo_iff.mp hanswers).2 _ rfl⟩

/-- A reference is to the column of its name in a table if this is the only one that may have
been meant. -/
theorem answersAt_of_only {table : Option String} {p : Nat} (he : entries[k]? = some e)
    (hqualifier : ∀ q ∈ table, (sourceOf e).reference = q)
    (hp : e.1.schema.position? column = some p)
    (honly : ∀ k' e', entries[k']? = some e' → (∀ q ∈ table, (sourceOf e').reference = q) →
      (∃ a ∈ e'.1.schema, a.name = column) → k' = k) :
    (productOf entries).schema.AnswersAt table column
      (columnsBefore (entries.map Prod.fst) k + p) := by
  intro j
  rw [h.exists_answering_iff]
  constructor
  · rintro ⟨k', e', p', he', hqualifier', hp', rfl⟩
    obtain ⟨a, ha, hname⟩ := Schema.getElem?_of_position? hp'
    obtain rfl := honly k' e' he' hqualifier' ⟨a, List.mem_of_getElem? ha, hname⟩
    obtain rfl := Option.some.inj (he.symm.trans he')
    obtain rfl := Option.some.inj (hp.symm.trans hp')
    rfl
  · rintro rfl
    exact ⟨k, e, p, he, hqualifier, hp, rfl⟩

/-- A bare name that is to one column is to that of its name in each table that has such a
column. -/
theorem eq_of_answersAt {i : Nat} (hanswers : (productOf entries).schema.AnswersAt none column i)
    {p : Nat} (he : entries[k]? = some e) (hp : e.1.schema.position? column = some p) :
    i = columnsBefore (entries.map Prod.fst) k + p := by
  apply Eq.symm
  apply (hanswers _).mp
  exact h.exists_answering_iff.mpr ⟨k, e, p, he, by simp, hp, rfl⟩

/-- A bare name is to one column of the product exactly if it is that of a column in one table. -/
theorem exists_answersAt_iff :
    (∃ i, (productOf entries).schema.AnswersAt none column i) ↔
      ∃! k : Nat, ∃ e, entries[k]? = some e ∧ ∃ a ∈ e.1.schema, a.name = column := by
  constructor
  · rintro ⟨i, hanswers⟩
    obtain ⟨k, e, p, he, _, hp, hi⟩ := h.exists_answering_iff.mp ((hanswers i).mpr rfl)
    obtain ⟨a, ha, hname⟩ := Schema.getElem?_of_position? hp
    refine ⟨k, ⟨e, he, a, List.mem_of_getElem? ha, hname⟩, ?_⟩
    rintro k' ⟨e', he', b, hb, rfl⟩
    obtain ⟨p', hp'⟩ := Schema.exists_position? hb
    obtain ⟨b', hb', _⟩ := Schema.getElem?_of_position? hp'
    exact columnsBefore_inj (getElem?_tables he') (List.getElem?_eq_some_iff.mp hb').1
      (getElem?_tables he) (List.getElem?_eq_some_iff.mp ha).1
      ((h.eq_of_answersAt hanswers he' hp').symm.trans hi)
  · rintro ⟨k, ⟨e, he, a, ha, rfl⟩, honly⟩
    obtain ⟨p, hp⟩ := Schema.exists_position? ha
    refine ⟨_, h.answersAt_of_only he (by simp) hp fun k' e' he' _ hcolumn => ?_⟩
    exact honly k' ⟨e', he', hcolumn⟩

end ToldApart

/-- In the product of tables that can be told apart, a reference with the name of a table for its
qualifier resolves to as many columns as the earlier tables have and then the position in this
table, and if the table has no such column it fails for the sake of the column. A bare name
resolves exactly if one table, and no second one, has a column of the name, and then to the
place of this column. -/
theorem resolve_productOf (h : ToldApart entries) (column : String) :
    (∀ k e, entries[k]? = some e →
      (productOf entries).schema.resolve (some (sourceOf e).reference) column =
        match e.1.schema.position? column with
        | some p => .ok (columnsBefore (entries.map Prod.fst) k + p)
        | none => .error (.whereColumn ((sourceOf e).reference ++ "." ++ column))) ∧
    ((∃ i, (productOf entries).schema.resolve none column = .ok i) ↔
      ∃! k : Nat, ∃ e, entries[k]? = some e ∧ ∃ a ∈ e.1.schema, a.name = column) ∧
    ∀ i k e p, (productOf entries).schema.resolve none column = .ok i →
      entries[k]? = some e → e.1.schema.position? column = some p →
      i = columnsBefore (entries.map Prod.fst) k + p := by
  refine ⟨fun k e he => ?_, ?_, fun i k e p hresolve he hp => ?_⟩
  · cases hp : e.1.schema.position? column with
    | some p =>
      apply Schema.resolve_eq_ok_iff.mpr
      apply h.answersAt_of_only he (by simp) hp
      intro k' e' he' hqualifier _
      exact h.eq_of_reference_eq he' he (hqualifier _ rfl)
    | none =>
      apply Schema.resolve_eq_whereColumn
      · exact h.exists_table he
      · intro i hanswers
        obtain ⟨k', e', p, he', hqualifier, hp', _⟩ := h.exists_answering_iff.mp hanswers
        obtain rfl := h.eq_of_reference_eq he' he (hqualifier _ rfl)
        obtain rfl := Option.some.inj (he.symm.trans he')
        simp [hp] at hp'
  · simp only [Schema.resolve_eq_ok_iff]
    exact h.exists_answersAt_iff
  · exact h.eq_of_answersAt (Schema.resolve_eq_ok_iff.mp hresolve) he hp

/-- Three tables that all have a column of one name. The second is read under an alias, and the
third has no name but its alias. -/
def sampleEntries : List (Table × Option String) :=
  [({ Table.blank "hall" with
      schema := [.plain "id" .integer 0 true, .plain "name" .char 4 true] }, none),
    ({ Table.blank "desk" with
      schema := [.plain "floor" .integer 0 true, .plain "id" .integer 0 true] }, some "seat"),
    ({ Table.blank "" with
      schema := [.plain "since" .date 0 true, .plain "id" .integer 0 true] }, some "desk")]

/-- The name of the second table is the qualifier of the columns of the third. -/
theorem resolve_productOf_sample :
    (productOf sampleEntries).schema.resolve (some "desk") "id" = .ok 5 ∧
      (productOf sampleEntries).schema.resolve (some "desk") "floor" =
        .error (.whereColumn "desk.floor") ∧
      (productOf sampleEntries).schema.resolve none "floor" = .ok 2 ∧
      ¬ ∃ i, (productOf sampleEntries).schema.resolve none "id" = .ok i := by
  have happart : ToldApart sampleEntries := by
    refine ⟨by decide, ?_, by decide, by decide⟩
    simp only [Schema.Distinct]
    decide
  obtain ⟨hid, hidBare, _⟩ := resolve_productOf happart "id"
  obtain ⟨hfloor, hfloorBare, hfloorAt⟩ := resolve_productOf happart "floor"
  refine ⟨hid 2 _ rfl, hfloor 2 _ rfl, ?_, ?_⟩
  · have honly : ∀ k : Nat, (∃ e, sampleEntries[k]? = some e ∧
        ∃ a ∈ e.1.schema, a.name = "floor") → k = 1 := by
      rintro (_ | _ | _ | k) hk
      · simp [sampleEntries, Attribute.plain] at hk
      · rfl
      · simp [sampleEntries, Attribute.plain] at hk
      · simp [sampleEntries] at hk
    obtain ⟨i, hi⟩ := hfloorBare.mpr ⟨1, ⟨_, rfl, by decide⟩, honly⟩
    obtain rfl := hfloorAt i 1 _ 0 hi rfl rfl
    exact hi
  · intro hresolved
    obtain ⟨k, _, honly⟩ := hidBare.mp hresolved
    have hfirst := honly 0 ⟨_, rfl, by decide⟩
    have hsecond := honly 1 ⟨_, rfl, by decide⟩
    omega

end Query

end RelationalStore
