import RelationalStore.Proofs.Table.Selection

/-!
# References with a qualifier

In the product of some tables the columns of each of them stand behind those of the earlier
ones. A column that is found there by its name and a qualifier is thus that of one table, which
is read under the qualifier. In every row of the product the values of this table stand at the
same distance from the start, so that the column has the value which it has in the row of its
own table.
-/

namespace RelationalStore

namespace Query

/-- How many columns stand in front of those of one table in a product. -/
def columnsBefore : List Table → Nat → Nat
  | [], _ => 0
  | _ :: _, 0 => 0
  | t :: rest, k + 1 => t.schema.length + columnsBefore rest k

/-- Before the first table there are no columns. -/
@[simp] theorem columnsBefore_zero (tables : List Table) : columnsBefore tables 0 = 0 := by
  cases tables <;> rfl

/-- The columns of the first table stand before those of all others. -/
@[simp] theorem columnsBefore_cons_succ (t : Table) (rest : List Table) (k : Nat) :
    columnsBefore (t :: rest) (k + 1) = t.schema.length + columnsBefore rest k := rfl

/-- A column of one table does not stand among those of another. -/
theorem columnsBefore_inj {tables : List Table} {k k' p p' : Nat} {t t' : Table}
    (ht : tables[k]? = some t) (hp : p < t.schema.length) (ht' : tables[k']? = some t')
    (hp' : p' < t'.schema.length)
    (heq : columnsBefore tables k + p = columnsBefore tables k' + p') : k = k' := by
  induction tables generalizing k k' with
  | nil => simp at ht
  | cons first rest ih =>
    cases k with
    | zero =>
      obtain rfl := Option.some.inj ht
      cases k' with
      | zero => rfl
      | succ k' =>
        simp only [columnsBefore_zero, columnsBefore_cons_succ] at heq
        omega
    | succ k =>
      cases k' with
      | zero =>
        obtain rfl := Option.some.inj ht'
        simp only [columnsBefore_zero, columnsBefore_cons_succ] at heq
        omega
      | succ k' =>
        simp only [columnsBefore_cons_succ] at heq
        rw [ih ht ht' (by omega)]

section

variable {α ε : Type} {block : ε → List α} {es : List ε} {tables : List Table}
  (hblocks : List.Forall₂ (fun e t => (block e).length = t.schema.length) es tables)

include hblocks

/-- Where something is listed for each column of some tables, that for the columns of one table
stands behind that for the columns of the earlier ones. -/
theorem getElem?_flatMap_columnsBefore {k p : Nat} {e : ε} (he : es[k]? = some e)
    (hp : p < (block e).length) :
    (es.flatMap block)[columnsBefore tables k + p]? = (block e)[p]? := by
  induction hblocks generalizing k with
  | nil => simp at he
  | cons hfirst _ ih =>
    rw [List.flatMap_cons]
    cases k with
    | zero =>
      obtain rfl := Option.some.inj he
      rw [columnsBefore_zero, Nat.zero_add, List.getElem?_append_left hp]
    | succ k =>
      rw [columnsBefore_cons_succ, ← hfirst, Nat.add_assoc,
        List.getElem?_append_right (Nat.le_add_right _ _), Nat.add_sub_cancel_left]
      exact ih he

/-- All that is listed is so for a column of one of the tables. -/
theorem exists_of_getElem?_flatMap {i : Nat} {a : α} (ha : (es.flatMap block)[i]? = some a) :
    ∃ k e p, es[k]? = some e ∧ (block e)[p]? = some a ∧ i = columnsBefore tables k + p := by
  induction hblocks generalizing i with
  | nil => simp at ha
  | @cons e t es tables hfirst _ ih =>
    rw [List.flatMap_cons] at ha
    by_cases hi : i < (block e).length
    · rw [List.getElem?_append_left hi] at ha
      exact ⟨0, e, i, rfl, ha, by rw [columnsBefore_zero, Nat.zero_add]⟩
    · rw [List.getElem?_append_right (Nat.le_of_not_lt hi)] at ha
      obtain ⟨k, e', p, he', hp, heq⟩ := ih ha
      refine ⟨k + 1, e', p, he', hp, ?_⟩
      rw [columnsBefore_cons_succ, ← hfirst]
      omega

end

variable {read : TableReader} {sources : List Source} {tables : List Table}

/-- The columns of a product are listed table by table. -/
theorem forall₂_zip_schema (hlength : sources.length = tables.length) :
    List.Forall₂ (fun e t => (e.2.schema.map
      fun a => { a with table := e.1.reference }).length = t.schema.length)
      (sources.zip tables) tables := by
  have htables : (sources.zip tables).map Prod.snd = tables :=
    List.map_snd_zip (Nat.le_of_eq hlength.symm)
  have hblocks : List.Forall₂ (fun e t => (e.2.schema.map
      fun a => { a with table := e.1.reference }).length = t.schema.length)
      (sources.zip tables) ((sources.zip tables).map Prod.snd) :=
    List.forall₂_map_right_iff.mpr (List.forall₂_same.mpr fun _ _ => List.length_map _)
  rwa [htables] at hblocks

/-- The values of a row of a product are listed table by table. -/
theorem InRange.forall₂_zip {positions : List Nat} (h : InRange tables positions)
    (hfilled : ∀ t ∈ tables, t.Filled) :
    List.Forall₂ (fun e t => (e.1.rows.getD e.2 []).length = t.schema.length)
      (tables.zip positions) tables := by
  have htables : (tables.zip positions).map Prod.fst = tables :=
    List.map_fst_zip (Nat.le_of_eq h.length_eq)
  have hblocks : List.Forall₂ (fun e t => (e.1.rows.getD e.2 []).length = t.schema.length)
      (tables.zip positions) ((tables.zip positions).map Prod.fst) := by
    refine List.forall₂_map_right_iff.mpr (List.forall₂_same.mpr ?_)
    rintro ⟨t, n⟩ hentry
    have hn : n < t.rows.length := List.forall₂_zip h hentry
    rw [List.getD_eq_getElem?_getD, List.getElem?_eq_getElem hn, Option.getD_some]
    exact hfilled t (List.of_mem_zip hentry).1 _ (List.getElem_mem hn)
  rwa [htables] at hblocks

variable {k p : Nat} {s : Source} {t : Table}

/-- The columns of a table stand in the product in their order, under the name of its source. -/
theorem getElem?_joinedSchema (hlength : sources.length = tables.length)
    (hs : sources[k]? = some s) (ht : tables[k]? = some t) {a : Attribute}
    (ha : t.schema[p]? = some a) :
    (joinedSchema sources tables)[columnsBefore tables k + p]? =
      some { a with table := s.reference } := by
  have hentry : (sources.zip tables)[k]? = some (s, t) :=
    List.getElem?_zip_eq_some.mpr ⟨hs, ht⟩
  have hp : p < (t.schema.map fun a => { a with table := s.reference }).length := by
    rw [List.length_map]
    exact (List.getElem?_eq_some_iff.mp ha).1
  rw [joinedSchema, getElem?_flatMap_columnsBefore (forall₂_zip_schema hlength) hentry hp,
    List.getElem?_map, ha, Option.map_some]

/-- Every column of the product is that of one of its tables. -/
theorem exists_of_getElem?_joinedSchema (hlength : sources.length = tables.length) {i : Nat}
    {a : Attribute} (ha : (joinedSchema sources tables)[i]? = some a) :
    ∃ k s t p b, sources[k]? = some s ∧ tables[k]? = some t ∧ t.schema[p]? = some b ∧
      i = columnsBefore tables k + p ∧ a = { b with table := s.reference } := by
  obtain ⟨k, ⟨s, t⟩, p, hentry, hp, heq⟩ :=
    exists_of_getElem?_flatMap (forall₂_zip_schema hlength) ha
  obtain ⟨hs, ht⟩ := List.getElem?_zip_eq_some.mp hentry
  rw [List.getElem?_map, Option.map_eq_some_iff] at hp
  obtain ⟨b, hb, rfl⟩ := hp
  exact ⟨k, s, t, p, b, hs, ht, hb, heq, rfl⟩

/-- The values of a row of the product are those of the rows that it is put together from. -/
theorem InRange.getElem?_joinedRow {positions : List Nat} (h : InRange tables positions)
    (hfilled : ∀ t ∈ tables, t.Filled) {n : Nat} {own : Row} (ht : tables[k]? = some t)
    (hn : positions[k]? = some n) (hown : t.rows[n]? = some own) (hp : p < own.length) :
    (joinedRow tables positions)[columnsBefore tables k + p]? = own[p]? := by
  have hentry : (tables.zip positions)[k]? = some (t, n) :=
    List.getElem?_zip_eq_some.mpr ⟨ht, hn⟩
  have hrow : t.rows.getD n [] = own := by rw [List.getD_eq_getElem?_getD, hown, Option.getD_some]
  have hat := getElem?_flatMap_columnsBefore (h.forall₂_zip hfilled) hentry (p := p)
  rw [hrow] at hat
  exact hat hp

/-- A reference with a qualifier is to the first column of its name in one table, and this is
the only table that is read under the qualifier and has such a column. -/
theorem exists_source_of_answersAt {q column : String} {i : Nat}
    (hlength : sources.length = tables.length)
    (h : (joinedSchema sources tables).AnswersAt (some q) column i) :
    ∃ k s t p, sources[k]? = some s ∧ tables[k]? = some t ∧ s.reference = q ∧
      t.schema.position? column = some p ∧ i = columnsBefore tables k + p ∧
      ∀ k' s' t', sources[k']? = some s' → tables[k']? = some t' → s'.reference = q →
        (∃ a ∈ t'.schema, a.name = column) → k' = k := by
  -- in every table of the kind the first column of the name answers to the reference
  have hanswers {k : Nat} {s : Source} {t : Table} (hs : sources[k]? = some s)
      (ht : tables[k]? = some t) (hq : s.reference = q)
      (hcolumn : ∃ a ∈ t.schema, a.name = column) :
      ∃ p, t.schema.position? column = some p ∧ p < t.schema.length ∧
        columnsBefore tables k + p = i := by
    obtain ⟨a, ha, rfl⟩ := hcolumn
    obtain ⟨p, hp⟩ := Schema.exists_position? ha
    obtain ⟨b, hb, hname⟩ := Schema.getElem?_of_position? hp
    refine ⟨p, hp, (List.getElem?_eq_some_iff.mp hb).1, (h _).mp ⟨_,
      getElem?_joinedSchema hlength hs ht hb, ?_⟩⟩
    simp [Attribute.answersTo, hname, hq]
  obtain ⟨a, ha, hto⟩ := (h i).mpr rfl
  obtain ⟨k, s, t, _, b, hs, ht, hb, _, rfl⟩ := exists_of_getElem?_joinedSchema hlength ha
  obtain ⟨hname, hq⟩ : b.name = column ∧ s.reference = q := by
    simpa [Attribute.answersTo] using hto
  obtain ⟨p, hposition, hp, hi⟩ := hanswers hs ht hq ⟨b, List.mem_of_getElem? hb, hname⟩
  refine ⟨k, s, t, p, hs, ht, hq, hposition, hi.symm, fun k' s' t' hs' ht' hq' hcolumn => ?_⟩
  obtain ⟨p', _, hp', hi'⟩ := hanswers hs' ht' hq' hcolumn
  exact columnsBefore_inj ht' hp' ht hp (hi'.trans hi.symm)

section

variable (hfinds : List.Forall₂ (Finds read) sources tables)

include hfinds

/-- In every row of the product a reference to a column of one table has the value that the row
of this table has there. -/
theorem exists_value_of_answersAt {q column : String}
    (hanswers :
      (joinedSchema sources tables).AnswersAt (some q) column (columnsBefore tables k + p))
    (ht : tables[k]? = some t) (hp : t.schema.position? column = some p) {row : Row}
    (hrow : row ∈ (joinedTable sources tables).rows) :
    ∃ positions n own v, InRange tables positions ∧ row = joinedRow tables positions ∧
      positions[k]? = some n ∧ t.rows[n]? = some own ∧ t.schema.value? own column = some v ∧
      (Operand.column (some q) column).value row (joinedSchema sources tables) = .ok v := by
  have hfilled := filled_of_finds hfinds
  rw [rows_joinedTable hfinds] at hrow
  obtain ⟨positions, hpositions, rfl⟩ := List.mem_map.mp hrow
  have hrange := mem_places_iff.mp hpositions
  obtain ⟨n, hn, hbound⟩ := hrange.exists_getElem?_right ht
  have hown := List.getElem?_eq_getElem hbound
  have hlength : p < (t.rows[n]).length := by
    rw [hfilled t (List.mem_of_getElem? ht) _ (List.getElem_mem hbound)]
    exact (List.findIdx?_eq_some_iff_getElem.mp hp).1
  have hvalue := List.getElem?_eq_getElem hlength
  refine ⟨positions, n, _, _, hrange, rfl, hn, hown,
    Schema.value?_eq_some_iff.mpr ⟨p, hp, hvalue⟩,
    Schema.value_column_eq_ok_iff.mpr ⟨_, hanswers, ?_⟩⟩
  rw [hrange.getElem?_joinedRow hfilled ht hn hown hlength, hvalue]

end

/-- No two sources have the same alias if none is given twice. -/
theorem eq_of_asName_eq {k' : Nat} {s' : Source} {q : String}
    (hnodup : (sources.filterMap (·.asName)).Nodup) (hs : sources[k]? = some s)
    (hs' : sources[k']? = some s') (hq : s.asName = some q) (hq' : s'.asName = some q) :
    k' = k := by
  have hpairwise := List.pairwise_iff_getElem.mp (List.pairwise_filterMap.mp hnodup)
  obtain ⟨hk, rfl⟩ := List.getElem?_eq_some_iff.mp hs
  obtain ⟨hk', rfl⟩ := List.getElem?_eq_some_iff.mp hs'
  rcases Nat.lt_trichotomy k' k with hlt | heq | hlt
  · exact absurd rfl (hpairwise k' k hk' hk hlt q hq' q hq)
  · exact heq
  · exact absurd rfl (hpairwise k k' hk hk' hlt q hq q hq')

/-- A source has its name from an alias, or it is the table of the name. -/
theorem asName_eq_or_of_reference_eq {q : String} (hq : s.reference = q) :
    s.asName = some q ∨ s = ⟨q, none⟩ := by
  obtain ⟨name, asName⟩ := s
  cases asName with
  | none => exact .inr (congrArg (Source.mk · none) hq)
  | some other => exact .inl (congrArg some hq)

end Query

end RelationalStore
