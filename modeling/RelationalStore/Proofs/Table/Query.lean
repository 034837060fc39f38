import RelationalStore.Proofs.Collection.Paired
import RelationalStore.Proofs.Condition.Faults
import RelationalStore.Proofs.Table.Reading

/-!
# What queries are refused for

The rows of a product are put together from rows of its tables, and its columns from theirs.
So if the rows of every table are as long as its schema, the rows of the product are too.
Every position to which a reference resolves is then one of the row, and a query fails only
because of the tables, the columns or the comparisons that it names.
-/

namespace RelationalStore

namespace Table

variable {t left right : Table}

/-- Every row of the table has one value for each column. -/
def Filled (t : Table) : Prop :=
  ∀ row ∈ t.rows, row.length = t.schema.length

/-- The unit has one row and no column, and so it is filled. -/
theorem filled_unit : unit.Filled := by
  intro row hrow
  rw [List.mem_singleton.mp hrow]
  rfl

/-- Reading a table under an alias changes what its columns are called, not how many
there are. -/
theorem length_qualifiedSchema (t : Table) (asName : Option String) :
    (t.qualifiedSchema asName).length = t.schema.length := by
  unfold qualifiedSchema
  split
  · exact List.length_map _
  · rfl

/-- The product of filled tables is filled. -/
theorem Filled.product (hleft : left.Filled) (hright : right.Filled)
    (leftAlias rightAlias : Option String) :
    (left.product leftAlias right rightAlias).Filled := by
  intro row hrow
  obtain ⟨l, hl, hrow⟩ := List.mem_flatMap.mp hrow
  obtain ⟨r, hr, rfl⟩ := List.mem_map.mp hrow
  simp only [Table.product, List.length_append, length_qualifiedSchema, hleft l hl, hright r hr]

/-- The rows that are found are rows of the table. -/
theorem mem_of_search {condition : Option Condition} {rows : List Row} {row : Row}
    (h : t.search condition = .ok rows) (hrow : row ∈ rows) : row ∈ t.rows := by
  obtain ⟨entries, hentries, hrows⟩ := bind_eq_ok_iff.mp h
  obtain rfl := pure_eq_ok_iff.mp hrows
  obtain ⟨entry, hentry, rfl⟩ := List.mem_map.mp hrow
  exact List.mem_of_getElem? (Condition.getElem?_of_mem_matching hentries hentry)

/-- A search of a filled table fails only for what the condition says. -/
theorem search_failsOnly (ht : t.Filled) (condition : Option Condition) :
    FailsOnly (fun e => e.topic = .condition) (t.search condition) := by
  refine FailsOnly.bind ?_ fun entries _ => .ok _
  refine (Condition.matching_failsOnly condition t.rows).mono ?_
  rintro e ⟨c, row, _, hrow, he⟩
  exact c.evaluate_failsOnly (ht row hrow) e he

end Table

namespace Query

variable {read : TableReader} {sources : List Source}

/-- What can be read as a table is filled, and everything can be read. -/
def Readable (read : TableReader) : Prop :=
  ∀ name, ∃ t?, read name = .ok t? ∧ ∀ t, t? = some t → t.Filled

/-- The tables of a query are read, or one of them is not there or has a taken alias. -/
theorem readSources_failsOnly (hread : Readable read) (seen : List String)
    (sources : List Source) :
    FailsOnly (Failure.About .query) (readSources read seen sources) := by
  induction sources generalizing seen with
  | nil => exact .ok []
  | cons s rest ih =>
    obtain ⟨t?, ht?, _⟩ := hread s.name
    unfold readSources
    refine FailsOnly.bind_ok ht? ?_
    cases t? with
    | none => exact .error ⟨_, rfl, rfl⟩
    | some t =>
      cases s.asName with
      | none => exact (ih seen).bind fun others _ => .ok _
      | some name =>
        dsimp only
        split
        · exact .error ⟨_, rfl, rfl⟩
        · exact (ih (name :: seen)).bind fun others _ => .ok _

/-- Sources are read exactly if each of them finds a table, no alias is given twice, and none
has been seen before. -/
theorem readSources_eq_ok_iff {seen : List String} {entries : List (Table × Option String)} :
    readSources read seen sources = .ok entries ↔
      List.Forall₂ (fun s entry => read s.name = .ok (some entry.1) ∧ entry.2 = s.asName)
        sources entries ∧
      (sources.filterMap (·.asName)).Nodup ∧
      ∀ name ∈ sources.filterMap (·.asName), name ∉ seen := by
  induction sources generalizing seen entries with
  | nil =>
    rw [readSources, pure_eq_ok_iff]
    simp [eq_comm]
  | cons s rest ih =>
    -- whatever stands in front, the other sources are read with some list of aliases seen
    have hothers {seen' : List String} {t : Table} {asName : Option String} :
        (do let others ← readSources read seen' rest; return (t, asName) :: others) =
            Except.ok entries ↔
          ∃ others, readSources read seen' rest = .ok others ∧ (t, asName) :: others = entries := by
      simp only [bind_eq_ok_iff, pure_eq_ok_iff]
    unfold readSources
    simp only [bind_eq_ok_iff, List.forall₂_cons_left_iff]
    constructor
    · rintro ⟨t?, ht?, h⟩
      cases t? with
      | none => cases h
      | some t =>
        cases hname : s.asName with
        | none =>
          rw [hname] at h
          obtain ⟨others, hrest, rfl⟩ := hothers.mp h
          rw [List.filterMap_cons_none hname]
          obtain ⟨hentries, haliases⟩ := ih.mp hrest
          exact ⟨⟨_, others, ⟨ht?, rfl⟩, hentries, rfl⟩, haliases⟩
        | some name =>
          simp only [hname] at h
          split at h
          · cases h
          · next hfree =>
            obtain ⟨others, hrest, rfl⟩ := hothers.mp h
            obtain ⟨hentries, hnodup, hseen⟩ := ih.mp hrest
            rw [List.filterMap_cons_some hname, List.nodup_cons, List.forall_mem_cons]
            refine ⟨⟨_, others, ⟨ht?, rfl⟩, hentries, rfl⟩, ⟨fun hmem => ?_, hnodup⟩, hfree,
              fun other hother hmem => hseen other hother (List.mem_cons_of_mem _ hmem)⟩
            exact hseen name hmem List.mem_cons_self
    · rintro ⟨⟨⟨t, asName⟩, others, ⟨ht, hname⟩, hentries, rfl⟩, hnodup, hseen⟩
      refine ⟨some t, ht, ?_⟩
      dsimp only at hname
      cases asName with
      | none =>
        rw [List.filterMap_cons_none hname.symm] at hnodup hseen
        rw [← hname]
        exact hothers.mpr ⟨others, ih.mpr ⟨hentries, hnodup, hseen⟩, rfl⟩
      | some name =>
        rw [List.filterMap_cons_some hname.symm, List.nodup_cons] at hnodup
        rw [List.filterMap_cons_some hname.symm, List.forall_mem_cons] at hseen
        simp only [← hname, if_neg hseen.1]
        refine hothers.mpr ⟨others, ih.mpr ⟨hentries, hnodup.2, fun other hother hmem => ?_⟩, rfl⟩
        rcases List.mem_cons.mp hmem with rfl | hmem
        · exact hnodup.1 hother
        · exact hseen.2 other hother hmem

/-- The tables that a query reads are filled. -/
theorem filled_of_readSources (hread : Readable read) {seen : List String}
    {tables : List (Table × Option String)} (h : readSources read seen sources = .ok tables) :
    ∀ source ∈ tables, source.1.Filled := by
  intro source hsource
  obtain ⟨s, _, hstored, _⟩ := (readSources_eq_ok_iff.mp h).1.exists_left hsource
  obtain ⟨t?, ht?, hfilled⟩ := hread s.name
  exact hfilled source.1 (Except.ok.inj (ht?.symm.trans hstored))

/-- The product of several filled tables is filled. -/
theorem filled_productOf {tables : List (Table × Option String)}
    (h : ∀ source ∈ tables, source.1.Filled) : (productOf tables).Filled := by
  have hfold (left : Table) (hleft : left.Filled) :
      (tables.foldl (fun left source => left.product none source.1 source.2) left).Filled := by
    induction tables generalizing left with
    | nil => exact hleft
    | cons source tables ih =>
      rw [List.forall_mem_cons] at h
      exact ih h.2 _ (hleft.product h.1 none source.2)
  exact hfold Table.unit Table.filled_unit

/-- A column that is asked for is resolved, or the query is refused for it. -/
theorem resolveProjection_failsOnly (schema : Schema) (p : Projection) :
    FailsOnly (fun e => e.topic = .query) (resolveProjection schema p) := by
  unfold resolveProjection
  split
  · exact .ok _
  · exact .error rfl

/-- A column that is asked for resolves to one of the schema. -/
theorem lt_length_of_resolveProjection {schema : Schema} {p : Projection} {i : Nat}
    (h : resolveProjection schema p = .ok i) : i < schema.length := by
  unfold resolveProjection at h
  split at h
  · next position hresolve =>
    obtain rfl := Except.ok.inj h
    exact Schema.lt_length_of_resolve hresolve
  · cases h

/-- Columns that the row has are projected. -/
theorem exists_projectRow {positions : List Nat} {row : Row}
    (h : ∀ i ∈ positions, i < row.length) :
    ∃ projected, projectRow positions row = .ok projected := by
  refine (FailsOnly.mapM fun i hi => ?_).exists_ok
  rw [List.getElem?_eq_getElem (h i hi)]
  exact .ok _

/-- A query is refused for the tables or columns that it names or for its condition. -/
theorem run_failsOnly (hread : Readable read) (sources : List Source)
    (projection : Option (List Projection)) (condition : Option Condition) :
    FailsOnly (fun f => Failure.About .query f ∨ Failure.About .condition f)
      (run sources projection condition read) := by
  refine ((readSources_failsOnly hread [] sources).mono fun _ => .inl).bind fun tables htables => ?_
  have hfilled : (productOf tables).Filled :=
    filled_productOf (filled_of_readSources hread htables)
  unfold answer
  dsimp only
  have hsearch := (Table.search_failsOnly hfilled condition).about
  refine (hsearch.mono fun _ => .inr).bind fun rows hrows => ?_
  cases projection with
  | none => exact .ok _
  | some columns =>
    have hresolve : FailsOnly (fun e => e.topic = .query)
        (columns.mapM (resolveProjection (productOf tables).schema)) :=
      .mapM fun p _ => resolveProjection_failsOnly _ p
    refine (hresolve.about.mono fun _ => .inl).bind fun positions hpositions => ?_
    have hbound : ∀ i ∈ positions, i < (productOf tables).schema.length := by
      intro i hi
      have hpaired := mapM_eq_ok_iff.mp (Failure.lift_eq_ok_iff.mp hpositions)
      obtain ⟨p, _, hp⟩ := hpaired.exists_left hi
      exact lt_length_of_resolveProjection hp
    refine FailsOnly.bind (.mapM fun row hrow => ?_) fun projected _ => .ok _
    have hrow := Table.mem_of_search (Failure.lift_eq_ok_iff.mp hrows) hrow
    exact .of_exists_ok (exists_projectRow fun i hi => hfilled row hrow ▸ hbound i hi)

end Query

end RelationalStore
