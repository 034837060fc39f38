import Mathlib.Data.Multiset.Bind
import RelationalStore.Proofs.Condition.Record
import RelationalStore.Proofs.Table.Selection

/-!
# Queries over rearranged sources

Where the tables of a query come in another order, their product has its columns in another
order and its rows too. Yet each row still is put together from one row of every table, so
that the same records come of it. A condition, and a column that is asked for, are found in a
record by names. So the query gives the same rows as often as before.
-/

namespace RelationalStore

/-- A row with its columns, in no order. -/
abbrev LooseRecord := Multiset (Attribute × Value)

/-- Each record of the first kind together with each one of the second. -/
def LooseRecord.beside (first second : Multiset LooseRecord) : Multiset LooseRecord :=
  first.bind fun r => second.map fun s => r + s

/-- The second and the third kind of records may be swapped. -/
theorem LooseRecord.beside_right_comm (a b c : Multiset LooseRecord) :
    beside (beside a b) c = beside (beside a c) b := by
  simp only [beside, Multiset.bind_assoc, Multiset.bind_map]
  refine Multiset.bind_congr fun r _ => ?_
  rw [Multiset.bind_map_comm]
  simp only [add_right_comm]

namespace Table

/-- The rows of a table with their columns, neither the rows nor the columns in any order. -/
def records (t : Table) : Multiset LooseRecord :=
  t.rows.map fun row => (t.schema.zip row : LooseRecord)

/-- The table with its columns as they are called under an alias. -/
def readAs (t : Table) (asName : Option String) : Table :=
  { t with schema := t.qualifiedSchema asName }

variable {t t' left : Table}

/-- The records of a product are put together from those of its tables. -/
theorem records_product (hname : left.name = "") (hleft : left.Filled) (t : Table)
    (asName : Option String) :
    (left.product none t asName).records =
      LooseRecord.beside left.records (t.readAs asName).records := by
  have hpair {l : Row} (hl : l ∈ left.rows) (r : Row) :
      ((left.schema ++ t.qualifiedSchema asName).zip (l ++ r) : LooseRecord) =
        (left.schema.zip l : LooseRecord) + (t.qualifiedSchema asName).zip r := by
    rw [List.zip_append (hleft l hl).symm, Multiset.coe_add]
  simp only [records, LooseRecord.beside, product, readAs, qualifiedSchema_none hname,
    Multiset.map_coe, Multiset.coe_bind, List.map_flatMap, List.flatMap_map, List.map_map]
  refine congrArg Multiset.ofList (List.flatMap_congr fun l hl => List.map_congr_left fun r _ => ?_)
  exact hpair hl r

/-- A row is found, in another order, in every table with the same records. -/
theorem exists_row_perm (h : t.records = t'.records) {row : Row} (hrow : row ∈ t.rows) :
    ∃ row' ∈ t'.rows, (t.schema.zip row).Perm (t'.schema.zip row') := by
  have hmem : (t.schema.zip row : LooseRecord) ∈ t'.records :=
    h ▸ Multiset.mem_coe.mpr (List.mem_map_of_mem hrow)
  obtain ⟨row', hrow', heq⟩ := List.mem_map.mp (Multiset.mem_coe.mp hmem)
  exact ⟨row', hrow', (Multiset.coe_eq_coe.mp heq).symm⟩

end Table

/-- A reference is to one attribute of a schema exactly if it is to one in another order. -/
theorem Schema.exists_answersAt_perm {schema schema' : Schema} (hperm : schema.Perm schema')
    {table : Option String} {column : String} :
    (∃ i, schema.AnswersAt table column i) ↔ ∃ i, schema'.AnswersAt table column i := by
  have hlength (s : Schema) : (∃ i, s.AnswersAt table column i) ↔
      (s.filter (·.answersTo table column)).length = 1 := by
    simp only [← resolve_eq_ok_iff, resolve_eq_ok_iff_positions, ← List.length_eq_one_iff]
    rw [positions, List.length_map, Condition.filter_eq_map_zipIdx s, List.length_map]
  rw [hlength, hlength, (hperm.filter _).length_eq]

namespace Query

variable {entries entries' : List (Table × Option String)}

/-- The records of a product are those of its tables, put beside each other in all ways. -/
theorem records_foldl_product (hfilled : ∀ entry ∈ entries, entry.1.Filled) {left : Table}
    (hname : left.name = "") (hleft : left.Filled) :
    (entries.foldl (fun left entry => left.product none entry.1 entry.2) left).records =
      entries.foldl (fun found entry => LooseRecord.beside found (entry.1.readAs entry.2).records)
        left.records := by
  induction entries generalizing left with
  | nil => rfl
  | cons entry rest ih =>
    rw [List.forall_mem_cons] at hfilled
    rw [List.foldl_cons, List.foldl_cons,
      ih hfilled.2 rfl (hleft.product hfilled.1 none entry.2),
      Table.records_product hname hleft]

/-- The records of a product do not depend on the order of its tables. -/
theorem records_productOf_perm (hperm : entries.Perm entries')
    (hfilled : ∀ entry ∈ entries, entry.1.Filled) :
    (productOf entries).records = (productOf entries').records := by
  have hfilled' : ∀ entry ∈ entries', entry.1.Filled :=
    fun entry hentry => hfilled entry (hperm.mem_iff.mpr hentry)
  rw [productOf, records_foldl_product hfilled rfl Table.filled_unit,
    productOf, records_foldl_product hfilled' rfl Table.filled_unit]
  exact hperm.foldl_eq' (fun _ _ _ _ found => LooseRecord.beside_right_comm found _ _) _

/-- Tables in another order give a product with the same columns in another order. -/
theorem schema_productOf_perm (hperm : entries.Perm entries') :
    (productOf entries).schema.Perm (productOf entries').schema := by
  rw [productOf, schema_foldl_product _ rfl, productOf, schema_foldl_product _ rfl]
  exact (hperm.flatMap_right _).append_left _

/-- Sources are read in another order exactly if they are in this one. -/
theorem readSources_perm {read : TableReader} {sources sources' : List Source}
    (hperm : sources.Perm sources') (h : readSources read [] sources = .ok entries) :
    ∃ entries', readSources read [] sources' = .ok entries' ∧ entries.Perm entries' := by
  obtain ⟨hentries, hnodup, _⟩ := readSources_eq_ok_iff.mp h
  obtain ⟨entries', hentries', hperm'⟩ := List.perm_comp_forall₂ hperm.symm hentries
  have hnodup' := (hperm.filterMap (·.asName)).nodup_iff.mp hnodup
  exact ⟨entries', readSources_eq_ok_iff.mpr ⟨hentries', hnodup', fun _ _ => List.not_mem_nil⟩,
    hperm'.symm⟩

end Query

namespace Record

variable {r r' : Record} {columns : List Projection} {condition : Option Condition}

/-- The values of a record in the columns that are asked for. -/
def asked (columns : List Projection) (r : Record) : Except Error Row :=
  columns.mapM fun column => (Operand.column column.table column.column).value r.row r.schema

/-- The values that are asked of a record are those to which a query projects its row. -/
theorem asked_eq_ok_iff {row : Row} :
    asked columns r = .ok row ↔ Query.Projects r.schema (some columns) r.row row := by
  simp only [asked, mapM_eq_ok_iff, Schema.value_column_eq_ok_iff, Query.Projects]

/-- What is asked of a record does not depend on the order of its columns. -/
theorem asked_perm (hperm : r.Perm r') {row : Row} :
    asked columns r = .ok row ↔ asked columns r' = .ok row := by
  simp only [asked, mapM_eq_ok_iff, value_perm hperm]

/-- The row that a query gives for a record, if its condition is true of it. -/
def given? (columns : List Projection) (condition : Option Condition) (r : Record) :
    Option Row :=
  if Condition.picks condition r.schema r.row then (asked columns r).toOption else none

/-- What a query gives for a record does not depend on the order of its columns. -/
theorem given?_perm (hperm : r.Perm r') :
    given? columns condition r = given? columns condition r' := by
  have hasked : (asked columns r).toOption = (asked columns r').toOption := by
    refine Option.ext fun row => ?_
    rw [toOption_eq_some_iff, toOption_eq_some_iff, asked_perm hperm]
  rw [given?, given?, picks_perm hperm, hasked]

end Record

/-- What a query gives for a record, whatever the order of its columns. -/
def LooseRecord.given? (columns : List Projection) (condition : Option Condition)
    (r : LooseRecord) : Option Row :=
  Quotient.liftOn r (Record.given? columns condition) fun _ _ => Record.given?_perm

namespace Query

variable {t t' : Table} {columns : List Projection} {projection : Option (List Projection)}
  {condition : Option Condition} {given : List String} {rows : List Row}

/-- The rows that a query gives are told by the records of its product. -/
theorem coe_eq_filterMap_records (hfilled : t.Filled)
    (h : List.Forall₂ (Projects t.schema (some columns))
      (t.rows.filter (Condition.picks condition t.schema)) rows) :
    (rows : Multiset Row) = t.records.filterMap (LooseRecord.given? columns condition) := by
  have hgiven : ∀ row ∈ t.rows, LooseRecord.given? columns condition (t.schema.zip row) =
      if Condition.picks condition t.schema row
      then (Record.asked columns (t.schema.zip row)).toOption else none := by
    intro row hrow
    have hrecord : LooseRecord.given? columns condition (t.schema.zip row) =
        Record.given? columns condition (t.schema.zip row) := rfl
    rw [hrecord, Record.given?, Record.schema_zip (hfilled row hrow),
      Record.row_zip (hfilled row hrow)]
  have hasked : List.Forall₂
      (fun row given => (Record.asked columns (t.schema.zip row)).toOption = some given)
      (t.rows.filter (Condition.picks condition t.schema)) rows := by
    refine h.imp_mem fun row hrow given hprojects => ?_
    have hlength := hfilled row (List.mem_filter.mp hrow).1
    rw [toOption_eq_some_iff, Record.asked_eq_ok_iff, Record.schema_zip hlength,
      Record.row_zip hlength]
    exact hprojects
  rw [Table.records, Multiset.filterMap_coe, List.filterMap_map, ← hasked.filterMap_eq,
    List.filterMap_filter]
  exact congrArg Multiset.ofList (List.filterMap_congr hgiven).symm

/-- What a query asks for is admitted by every table with the same records. -/
theorem Admissible.perm (h : Admissible t projection condition) (ht : t.Filled) (ht' : t'.Filled)
    (hschema : t.schema.Perm t'.schema) (hrecords : t.records = t'.records) :
    Admissible t' projection condition := by
  refine ⟨fun expr hexpr row' hrow' => ?_, fun columns hcolumns column hcolumn => ?_⟩
  · obtain ⟨row, hrow, hperm⟩ := Table.exists_row_perm hrecords.symm hrow'
    obtain ⟨truth, htruth⟩ := h.decided expr hexpr row hrow
    have hsame := @Record.evaluate_perm truth _ _ hperm expr
    rw [Record.schema_zip (ht row hrow), Record.row_zip (ht row hrow),
      Record.schema_zip (ht' row' hrow'), Record.row_zip (ht' row' hrow')] at hsame
    exact ⟨truth, hsame.mpr htruth⟩
  · exact (Schema.exists_answersAt_perm hschema).mp (h.resolved columns hcolumns column hcolumn)

/-- A query that succeeds gives the same rows as often from its sources in another order. -/
theorem run_perm {read : TableReader} {sources sources' : List Source} (hread : Readable read)
    (hperm : sources.Perm sources')
    (h : run sources (some columns) condition read = .ok (given, rows)) :
    ∃ rows', run sources' (some columns) condition read = .ok (given, rows') ∧
      rows.Perm rows' := by
  obtain ⟨entries, hentries, hadmissible, rfl, hrows⟩ := run_eq_ok_iff.mp h
  obtain ⟨entries', hentries', hsame⟩ := readSources_perm hperm hentries
  have hfilled := filled_of_readSources hread hentries
  have hproduct : (productOf entries).Filled := filled_productOf hfilled
  have hproduct' : (productOf entries').Filled :=
    filled_productOf (filled_of_readSources hread hentries')
  have hrecords := records_productOf_perm hsame hfilled
  have hadmissible' := hadmissible.perm hproduct hproduct' (schema_productOf_perm hsame) hrecords
  obtain ⟨rows', hrows'⟩ := hadmissible'.exists_projects hproduct'
  refine ⟨rows', run_eq_ok_iff.mpr ⟨entries', hentries', hadmissible', rfl, hrows'⟩, ?_⟩
  rw [← Multiset.coe_eq_coe, coe_eq_filterMap_records hproduct hrows,
    coe_eq_filterMap_records hproduct' hrows', hrecords]

end Query

end RelationalStore
