import Mathlib.Data.List.Lex
import RelationalStore.Proofs.Table.Query

/-!
# The rows of a product

A query forms the product of its tables step by step, and every step qualifies the columns
anew. What comes of it can be told at once. There is one row for each choice of a row position
in every table, in lexicographic order, and it is put together from the rows at these
positions. The columns are those of all tables, each qualified by the name under which its
table is read.
-/

namespace RelationalStore

/-- The columns of a table name it as their table. -/
def Table.Labelled (t : Table) : Prop :=
  ∀ a ∈ t.schema, a.table = t.name

/-- Columns that name their table are not changed when they are to name it. -/
theorem Table.Labelled.map_schema {t : Table} (h : t.Labelled) :
    t.schema.map (fun a => { a with table := t.name }) = t.schema := by
  have hsame : t.schema.map (fun a => { a with table := t.name }) = t.schema.map id :=
    List.map_congr_left fun a ha => by rw [← h a ha, id]
  rw [hsame, List.map_id]

/-- Columns that name their table are qualified by the alias of the table, or else by its name. -/
theorem Table.Labelled.qualifiedSchema {t : Table} (h : t.Labelled) (asName : Option String) :
    t.qualifiedSchema asName = t.schema.map fun a => { a with table := asName.getD t.name } := by
  cases asName with
  | some name => rfl
  | none =>
    by_cases hname : t.name = ""
    · simp only [Table.qualifiedSchema, Table.qualifier?, if_pos hname, Option.getD_none,
        h.map_schema]
    · simp only [Table.qualifiedSchema, Table.qualifier?, if_neg hname, Option.getD_none]

/-- A table without a name keeps its columns as they are called. -/
theorem Table.qualifiedSchema_none {t : Table} (hname : t.name = "") :
    t.qualifiedSchema none = t.schema := by
  simp [Table.qualifiedSchema, Table.qualifier?, hname]

namespace Query

/-- The positions are those of one row in each of the tables. -/
def InRange (tables : List Table) (positions : List Nat) : Prop :=
  List.Forall₂ (fun t i => i < t.rows.length) tables positions

/-- The choices of one row position in each of the tables, with that of the first table
outermost. -/
def places : List Table → List (List Nat)
  | [] => [[]]
  | t :: rest => (List.range t.rows.length).flatMap fun i => (places rest).map (i :: ·)

/-- The row that is put together from the rows of the tables at some positions. -/
def joinedRow (tables : List Table) (positions : List Nat) : Row :=
  (tables.zip positions).flatMap fun entry => entry.1.rows.getD entry.2 []

/-- The columns of all tables, each qualified by the name under which its table is read. -/
def joinedSchema (sources : List Source) (tables : List Table) : Schema :=
  (sources.zip tables).flatMap fun entry =>
    entry.2.schema.map fun a => { a with table := entry.1.reference }

/-- The product of the tables, each read under the alias of its source. -/
def joinedTable (sources : List Source) (tables : List Table) : Table :=
  productOf (tables.zip (sources.map (·.asName)))

/-- The source finds a table under its name, and the table is as stored ones are. -/
structure Finds (read : TableReader) (s : Source) (t : Table) : Prop where
  stored : read s.name = .ok (some t)
  name_eq : t.name = s.name
  labelled : t.Labelled
  filled : t.Filled

variable {read : TableReader} {sources : List Source} {tables : List Table}
  {positions : List Nat}

/-- The choices that are listed are all those of one row in each table. -/
theorem mem_places_iff : positions ∈ places tables ↔ InRange tables positions := by
  induction tables generalizing positions with
  | nil => simp [places, InRange]
  | cons t rest ih =>
    simp only [places, InRange, List.mem_flatMap, List.mem_range, List.mem_map, ih,
      List.forall₂_cons_left_iff]
    constructor
    · rintro ⟨i, hi, others, hothers, rfl⟩
      exact ⟨i, others, hi, hothers, rfl⟩
    · rintro ⟨i, others, hi, hothers, rfl⟩
      exact ⟨i, hi, others, hothers, rfl⟩

/-- The choices come in lexicographic order. -/
theorem pairwise_places (tables : List Table) : (places tables).Pairwise (· < ·) := by
  induction tables with
  | nil => exact List.pairwise_singleton _ _
  | cons t rest ih =>
    refine List.pairwise_flatMap.mpr ⟨fun i _ => ?_, ?_⟩
    · refine List.pairwise_map.mpr (ih.imp fun hlt => ?_)
      exact List.cons_lt_cons_self.mpr hlt
    · refine List.pairwise_lt_range.imp fun {i j} hij p hp q hq => ?_
      obtain ⟨p, _, rfl⟩ := List.mem_map.mp hp
      obtain ⟨q, _, rfl⟩ := List.mem_map.mp hq
      exact List.cons_lt_cons_iff.mpr (.inl hij)

/-- A list is walked by the positions of its items. -/
theorem flatMap_eq_range {β : Type} (rows : List Row) (f : Row → List β) :
    rows.flatMap f = (List.range rows.length).flatMap fun i => f (rows.getD i []) := by
  have hrows : rows = (List.range rows.length).map fun i => rows.getD i [] := by
    refine List.ext_getElem (by simp) fun i hi _ => ?_
    simp [List.getElem?_eq_getElem hi]
  conv_lhs => rw [hrows]
  rw [List.flatMap_map]

/-- The tables of a product are walked from the left, so that the first one is outermost. -/
theorem rows_foldl_product (entries : List (Table × Option String)) (left : Table) :
    (entries.foldl (fun left entry => left.product none entry.1 entry.2) left).rows =
      left.rows.flatMap fun l =>
        (places (entries.map Prod.fst)).map fun p => l ++ joinedRow (entries.map Prod.fst) p := by
  induction entries generalizing left with
  | nil => simp [places, joinedRow]
  | cons entry rest ih =>
    obtain ⟨t, asName⟩ := entry
    rw [List.foldl_cons, ih]
    simp only [Table.product, List.flatMap_assoc, List.flatMap_map, List.map_cons, places,
      List.map_flatMap, List.map_map]
    refine congrArg (left.rows.flatMap ·) (funext fun l => ?_)
    -- behind each row of the product so far, the rows of the next table come by their positions
    rw [flatMap_eq_range]
    refine congrArg (List.flatMap · _) (funext fun i => List.map_congr_left fun p _ => ?_)
    simp [joinedRow]

/-- A product of no name keeps its columns when it is multiplied. -/
theorem schema_foldl_product (entries : List (Table × Option String)) {left : Table}
    (hname : left.name = "") :
    (entries.foldl (fun left entry => left.product none entry.1 entry.2) left).schema =
      left.schema ++ entries.flatMap fun entry => entry.1.qualifiedSchema entry.2 := by
  induction entries generalizing left with
  | nil => simp
  | cons entry rest ih =>
    rw [List.foldl_cons, ih rfl]
    simp only [Table.product, Table.qualifiedSchema_none hname, List.append_assoc,
      List.flatMap_cons]

section

variable (hfinds : List.Forall₂ (Finds read) sources tables)

include hfinds

/-- The tables that the sources find are filled. -/
theorem filled_of_finds : ∀ t ∈ tables, t.Filled := by
  intro t ht
  obtain ⟨s, _, hfirst⟩ := hfinds.exists_left ht
  exact hfirst.filled

/-- The product of the tables that the sources find is filled. -/
theorem filled_joinedTable : (joinedTable sources tables).Filled :=
  filled_productOf fun entry hentry =>
    filled_of_finds hfinds entry.1 (List.of_mem_zip hentry).1

/-- The rows of the product are all that can be put together from rows of the tables. -/
theorem rows_joinedTable :
    (joinedTable sources tables).rows = (places tables).map (joinedRow tables) := by
  have htables : (tables.zip (sources.map (·.asName))).map Prod.fst = tables :=
    List.map_fst_zip (by rw [List.length_map, hfinds.length_eq])
  rw [joinedTable, productOf, rows_foldl_product, htables]
  simp [Table.unit]

/-- The columns of the product are those of the tables under the names of the sources. -/
theorem schema_joinedTable : (joinedTable sources tables).schema = joinedSchema sources tables := by
  rw [joinedTable, productOf, schema_foldl_product _ rfl]
  have hunit : Table.unit.schema = [] := rfl
  rw [hunit, List.nil_append]
  induction hfinds with
  | nil => rfl
  | @cons s t sources tables hfirst _ ih =>
    simp only [joinedSchema] at ih ⊢
    simp only [List.map_cons, List.zip_cons_cons, List.flatMap_cons, ih,
      hfirst.labelled.qualifiedSchema, Source.reference, hfirst.name_eq]

end

end Query

end RelationalStore
