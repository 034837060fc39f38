import RelationalStore.Proofs.Table.Product

/-!
# What a query gives

A query can be answered exactly if its condition has a truth on every row of the product and
each column that it asks for is that of one table. The answer then has a row for each row of
the product on which the condition is true, cut down to the columns that are asked for.
-/

namespace RelationalStore

/-- A search succeeds if the condition has a truth on every row, and finds those on which it is
true. -/
theorem Table.search_eq_ok_iff {t : Table} {condition : Option Condition} {rows : List Row} :
    t.search condition = .ok rows ↔
      (∀ expr, condition = some expr →
        ∀ row ∈ t.rows, ∃ truth, expr.evaluate row t.schema = .ok truth) ∧
      rows = t.rows.filter (Condition.picks condition t.schema) := by
  have hfound {entries : List (Row × Nat)}
      (h : Condition.matching condition t.schema t.rows = .ok entries) :
      entries.map Prod.fst = t.rows.filter (Condition.picks condition t.schema) := by
    rw [Condition.matching_eq_ok h, Condition.filter_eq_map_zipIdx t.rows]
  simp only [search, bind_eq_ok_iff, pure_eq_ok_iff]
  constructor
  · rintro ⟨entries, hentries, rfl⟩
    refine ⟨?_, hfound hentries⟩
    rintro expr rfl row hrow
    exact Condition.exists_evaluate_of_matching hentries hrow
  · rintro ⟨hdecided, rfl⟩
    have hnever : FailsOnly (fun _ => False)
        (Condition.matching condition t.schema t.rows) := by
      refine (Condition.matching_failsOnly condition t.rows).mono ?_
      rintro e ⟨expr, row, hexpr, hrow, he⟩
      obtain ⟨truth, htruth⟩ := hdecided expr hexpr row hrow
      rw [htruth] at he
      cases he
    obtain ⟨entries, hentries⟩ := hnever.exists_ok
    exact ⟨entries, hentries, hfound hentries⟩

/-- A row is picked exactly if the condition is true of it, or there is none. -/
theorem Condition.picks_iff {condition : Option Condition} {schema : Schema} {row : Row} :
    picks condition schema row = true ↔
      ∀ expr, condition = some expr → expr.evaluate row schema = .ok .yes := by
  cases condition with
  | none => simp [picks]
  | some expr => simp [picks]

namespace Query

/-- The condition has a truth on every row that can be put together from the tables, and each
column that is asked for is one of the schema. -/
structure Answerable (schema : Schema) (tables : List Table)
    (projection : Option (List Projection)) (condition : Option Condition) : Prop where
  decided : ∀ expr, condition = some expr → ∀ positions, InRange tables positions →
    ∃ truth, expr.evaluate (joinedRow tables positions) schema = .ok truth
  resolved : ∀ columns, projection = some columns → ∀ column ∈ columns,
    ∃ i, schema.AnswersAt column.table column.column i

/-- The choices of row positions at which the condition is true, in lexicographic order. -/
structure Chosen (schema : Schema) (tables : List Table) (condition : Option Condition)
    (chosen : List (List Nat)) : Prop where
  ascending : chosen.Pairwise (· < ·)
  mem_iff : ∀ positions, positions ∈ chosen ↔ InRange tables positions ∧
    ∀ expr, condition = some expr →
      expr.evaluate (joinedRow tables positions) schema = .ok .yes

/-- The row of an answer that comes of a row of the product: the whole row without a projection,
and else its values in the columns that are asked for. -/
def Projects (schema : Schema) : Option (List Projection) → Row → Row → Prop
  | none, joined, row => row = joined
  | some columns, joined, row =>
    List.Forall₂ (fun column v => ∃ i, schema.AnswersAt column.table column.column i ∧
      joined[i]? = some v) columns row

/-- The headers of an answer. -/
def headers (schema : Schema) : Option (List Projection) → List String
  | none => schema.map (·.name)
  | some columns => columns.map (·.header)

/-- The condition has a truth on every row of the table, and each column that is asked for is
one of its columns. -/
structure Admissible (t : Table) (projection : Option (List Projection))
    (condition : Option Condition) : Prop where
  decided : ∀ expr, condition = some expr →
    ∀ row ∈ t.rows, ∃ truth, expr.evaluate row t.schema = .ok truth
  resolved : ∀ columns, projection = some columns → ∀ column ∈ columns,
    ∃ i, t.schema.AnswersAt column.table column.column i

variable {read : TableReader} {sources : List Source} {tables : List Table} {schema : Schema}
  {projection : Option (List Projection)} {condition : Option Condition}

/-- A column that is asked for is resolved to the one that answers to it. -/
theorem resolveProjection_eq_ok_iff {column : Projection} {i : Nat} :
    resolveProjection schema column = .ok i ↔
      schema.AnswersAt column.table column.column i := by
  rw [← Schema.resolve_eq_ok_iff, resolveProjection]
  cases schema.resolve column.table column.column with
  | error e => simp
  | ok position => simp

/-- A row is projected to its values at the positions, in their order. -/
theorem projectRow_eq_ok_iff {positions : List Nat} {row projected : Row} :
    projectRow positions row = .ok projected ↔
      List.Forall₂ (fun i v => row[i]? = some v) positions projected := by
  rw [projectRow, mapM_eq_ok_iff]
  refine Iff.of_eq (congrArg (List.Forall₂ · positions projected)
    (funext₂ fun i v => propext ?_))
  cases row[i]? with
  | none => simp
  | some w => simp

/-- The columns that are asked for are projected from their positions. -/
theorem projects_iff {columns : List Projection} {positions : List Nat} {joined row : Row}
    (hpositions : List.Forall₂
      (fun column i => schema.AnswersAt column.table column.column i) columns positions) :
    Projects schema (some columns) joined row ↔ projectRow positions joined = .ok row := by
  rw [projectRow_eq_ok_iff, Projects]
  constructor
  · refine fun h => List.Forall₂.trans (List.Forall₂.flip hpositions) h ?_
    rintro i column v hi ⟨j, hj, hv⟩
    exact Schema.AnswersAt.unique hi hj ▸ hv
  · exact fun h => hpositions.trans h fun _ i _ hi hv => ⟨i, hi, hv⟩

/-- A query succeeds exactly if its sources are read and their product admits what it asks for,
and then the rows on which the condition is true are projected. -/
theorem run_eq_ok_iff {given : List String} {rows : List Row} :
    run sources projection condition read = .ok (given, rows) ↔
      ∃ entries, readSources read [] sources = .ok entries ∧
        Admissible (productOf entries) projection condition ∧
        given = headers (productOf entries).schema projection ∧
        List.Forall₂ (Projects (productOf entries).schema projection)
          ((productOf entries).rows.filter
            (Condition.picks condition (productOf entries).schema)) rows := by
  rw [run, bind_eq_ok_iff]
  refine exists_congr fun entries => and_congr_right fun _ => ?_
  simp only [monadLift_self, answer]
  generalize productOf entries = t
  simp only [bind_eq_ok_iff, Failure.lift_eq_ok_iff, Table.search_eq_ok_iff]
  cases projection with
  | none =>
    simp only [pure_eq_ok_iff, Prod.mk.injEq]
    constructor
    · rintro ⟨_, ⟨hdecided, rfl⟩, rfl, rfl⟩
      exact ⟨⟨hdecided, by simp⟩, rfl, List.forall₂_same.mpr fun _ _ => rfl⟩
    · rintro ⟨hadmissible, rfl, hrows⟩
      refine ⟨rows, ⟨hadmissible.decided, ?_⟩, rfl, rfl⟩
      exact List.forall₂_eq_eq_eq ▸ hrows.flip
  | some columns =>
    simp only [bind_eq_ok_iff, mapM_eq_ok_iff, resolveProjection_eq_ok_iff, pure_eq_ok_iff,
      Prod.mk.injEq, Failure.lift_eq_ok_iff]
    constructor
    · rintro ⟨_, ⟨hdecided, rfl⟩, positions, hpositions, _, hprojected, rfl, rfl⟩
      refine ⟨⟨hdecided, ?_⟩, rfl, hprojected.imp fun _ _ => (projects_iff hpositions).mpr⟩
      rintro _ ⟨⟩ column hcolumn
      obtain ⟨i, _, hi⟩ := hpositions.exists_right hcolumn
      exact ⟨i, hi⟩
    · rintro ⟨hadmissible, rfl, hrows⟩
      obtain ⟨positions, hpositions⟩ := List.Forall₂.exists_of_forall
        (hadmissible.resolved columns rfl)
      exact ⟨_, ⟨hadmissible.decided, rfl⟩, positions, hpositions, rows,
        hrows.imp fun _ _ => (projects_iff hpositions).mp, rfl, rfl⟩

/-- From rows that are as long as the schema every column is projected that is one of it. -/
theorem Admissible.exists_projects {t : Table} (h : Admissible t projection condition)
    (hfilled : t.Filled) :
    ∃ rows, List.Forall₂ (Projects t.schema projection)
      (t.rows.filter (Condition.picks condition t.schema)) rows := by
  refine List.Forall₂.exists_of_forall fun row hrow => ?_
  cases projection with
  | none => exact ⟨row, rfl⟩
  | some columns =>
    refine List.Forall₂.exists_of_forall fun column hcolumn => ?_
    obtain ⟨i, hi⟩ := h.resolved columns rfl column hcolumn
    have hbound : i < row.length := by
      rw [hfilled row (List.mem_filter.mp hrow).1]
      exact hi.lt_length
    exact ⟨_, i, hi, List.getElem?_eq_getElem hbound⟩

/-- Sources that find their tables are read in their order if no alias is given twice. -/
theorem readSources_eq_ok {seen : List String}
    (hfinds : List.Forall₂ (Finds read) sources tables)
    (hnodup : (sources.filterMap (·.asName)).Nodup)
    (hseen : ∀ name ∈ sources.filterMap (·.asName), name ∉ seen) :
    readSources read seen sources = .ok (tables.zip (sources.map (·.asName))) := by
  refine readSources_eq_ok_iff.mpr ⟨?_, hnodup, hseen⟩
  clear hnodup hseen
  induction hfinds with
  | nil => exact .nil
  | cons hfirst _ ih => exact .cons ⟨hfirst.stored, rfl⟩ ih

/-- The choices at which the condition picks the row are found by going through all of them. -/
theorem chosen_filter_places (schema : Schema) (tables : List Table)
    (condition : Option Condition) :
    Chosen schema tables condition
      ((places tables).filter fun p => Condition.picks condition schema (joinedRow tables p)) := by
  refine ⟨(pairwise_places tables).filter _, fun positions => ?_⟩
  rw [List.mem_filter, mem_places_iff, Condition.picks_iff]

section

variable (hfinds : List.Forall₂ (Finds read) sources tables)
  (hnodup : (sources.filterMap (·.asName)).Nodup)

include hfinds

/-- What can be answered from the tables is what their product admits. -/
theorem answerable_iff :
    Answerable (joinedSchema sources tables) tables projection condition ↔
      Admissible (joinedTable sources tables) projection condition := by
  have hdecided : (∀ expr, condition = some expr → ∀ positions, InRange tables positions →
      ∃ truth, expr.evaluate (joinedRow tables positions) (joinedSchema sources tables) =
        .ok truth) ↔
      ∀ expr, condition = some expr → ∀ row ∈ (joinedTable sources tables).rows,
        ∃ truth, expr.evaluate row (joinedTable sources tables).schema = .ok truth := by
    simp only [schema_joinedTable hfinds, rows_joinedTable hfinds, List.forall_mem_map,
      mem_places_iff]
  have hschema := schema_joinedTable hfinds
  exact ⟨fun h => ⟨hdecided.mp h.decided, hschema ▸ h.resolved⟩,
    fun h => ⟨hdecided.mpr h.decided, hschema ▸ h.resolved⟩⟩

/-- A query that succeeds could be answered, and each of its rows comes of a choice of row
positions at which the condition is true. -/
theorem run_eq_ok (hnodup : (sources.filterMap (·.asName)).Nodup) {given : List String}
    {rows : List Row} (h : run sources projection condition read = .ok (given, rows)) :
    Answerable (joinedSchema sources tables) tables projection condition ∧
      given = headers (joinedSchema sources tables) projection ∧
      ∃ chosen, Chosen (joinedSchema sources tables) tables condition chosen ∧
        List.Forall₂ (fun positions row => Projects (joinedSchema sources tables) projection
          (joinedRow tables positions) row) chosen rows := by
  obtain ⟨entries, hentries, hadmissible, hgiven, hrows⟩ := run_eq_ok_iff.mp h
  rw [readSources_eq_ok hfinds hnodup fun _ _ => List.not_mem_nil] at hentries
  obtain rfl := Except.ok.inj hentries
  rw [← joinedTable] at hadmissible hgiven hrows
  rw [schema_joinedTable hfinds] at hgiven hrows
  rw [rows_joinedTable hfinds, List.filter_map] at hrows
  exact ⟨(answerable_iff hfinds).mpr hadmissible, hgiven, _,
    chosen_filter_places _ tables condition, List.forall₂_map_left_iff.mp hrows⟩

/-- A query that can be answered is. -/
theorem exists_run (hnodup : (sources.filterMap (·.asName)).Nodup)
    (h : Answerable (joinedSchema sources tables) tables projection condition) :
    ∃ answer, run sources projection condition read = .ok answer := by
  have hadmissible := (answerable_iff hfinds).mp h
  obtain ⟨rows, hrows⟩ := hadmissible.exists_projects (filled_joinedTable hfinds)
  exact ⟨(_, rows), run_eq_ok_iff.mpr ⟨_,
    readSources_eq_ok hfinds hnodup fun _ _ => List.not_mem_nil, hadmissible, rfl, hrows⟩⟩

end

end Query

end RelationalStore
