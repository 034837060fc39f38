import RelationalStore.Proofs.Condition.Equality

/-!
# Rows with their columns

A condition finds the values that it compares by the names of their columns. It does not
matter, then, where in a row a value stands, as long as it stands under its column. A record
is a row each of whose values is kept with its column, and what a condition says of it does
not change when the record is put in another order.
-/

namespace RelationalStore

/-- A row with its columns: each value, and the attribute of the column that it stands in. -/
abbrev Record := List (Attribute × Value)

namespace Record

variable {r r' : Record} {table : Option String} {column : String} {v : Value}

/-- The columns of a record. -/
def schema (r : Record) : Schema :=
  r.map Prod.fst

/-- The values of a record. -/
def row (r : Record) : Row :=
  r.map Prod.snd

/-- The values in all columns that answer to a reference. -/
def answers (r : Record) (table : Option String) (column : String) : List Value :=
  (r.filter fun x => x.1.answersTo table column).map Prod.snd

/-- The columns of a record are those that were put together with the values. -/
theorem schema_zip {schema : Schema} {row : Row} (hlength : row.length = schema.length) :
    Record.schema (schema.zip row) = schema :=
  List.map_fst_zip (Nat.le_of_eq hlength.symm)

/-- The values of a record are those that were put together with the columns. -/
theorem row_zip {schema : Schema} {row : Row} (hlength : row.length = schema.length) :
    Record.row (schema.zip row) = row :=
  List.map_snd_zip (Nat.le_of_eq hlength)

/-- A reference to a column has a value exactly if there is one column that answers to it. -/
theorem value_column_eq_ok_iff :
    (Operand.column table column).value r.row r.schema = .ok v ↔
      r.answers table column = [v] := by
  -- both sides look at the entries that answer, one at their positions, the other at their values
  let found := r.zipIdx.filter fun entry => entry.1.1.answersTo table column
  have hpositions : r.schema.positions (·.answersTo table column) = found.map Prod.snd := by
    simp only [Schema.positions, Record.schema, List.zipIdx_map, List.filter_map, List.map_map]
    rfl
  have hanswers : r.answers table column = found.map fun entry => entry.1.2 := by
    rw [answers, Condition.filter_eq_map_zipIdx, List.map_map]
    rfl
  have hrow {entry : (Attribute × Value) × Nat} (h : found = [entry]) :
      r.row[entry.2]? = some entry.1.2 := by
    have hentry : entry ∈ found := h ▸ List.mem_singleton_self entry
    have hat := List.mem_zipIdx_iff_getElem?.mp (List.mem_filter.mp hentry).1
    rw [Record.row, List.getElem?_map, hat, Option.map_some]
  simp only [Schema.value_column_eq_ok_iff, ← Schema.resolve_eq_ok_iff,
    Schema.resolve_eq_ok_iff_positions, hpositions, hanswers, List.map_eq_singleton_iff]
  constructor
  · rintro ⟨_, ⟨entry, hfound, rfl⟩, hvalue⟩
    exact ⟨entry, hfound, Option.some.inj ((hrow hfound).symm.trans hvalue)⟩
  · rintro ⟨entry, hfound, rfl⟩
    exact ⟨entry.2, ⟨entry, hfound, rfl⟩, hrow hfound⟩

/-- An operand has the same value in a record in another order. -/
theorem value_perm (hperm : r.Perm r') (operand : Operand) :
    operand.value r.row r.schema = .ok v ↔ operand.value r'.row r'.schema = .ok v := by
  cases operand with
  | const w => exact Iff.rfl
  | column table column =>
    have hanswers : (r.answers table column).Perm (r'.answers table column) :=
      (hperm.filter _).map _
    rw [value_column_eq_ok_iff, value_column_eq_ok_iff, ← List.perm_singleton,
      ← List.perm_singleton]
    exact ⟨hanswers.symm.trans, hanswers.trans⟩

end Record

variable {row row' : Row} {schema schema' : Schema} {truth : Truth}

/-- What a comparison says depends only on the values that operands have. -/
theorem Comparison.evaluate_congr (h : ∀ (operand : Operand) (v : Value),
      operand.value row schema = .ok v ↔ operand.value row' schema' = .ok v)
    (c : Comparison) :
    c.evaluate row schema = .ok truth ↔ c.evaluate row' schema' = .ok truth := by
  simp only [evaluate, bind_eq_ok_iff, h c.left]
  refine exists_congr fun v => and_congr_right fun _ => ?_
  cases c.comparator with
  | isNull => exact Iff.rfl
  | isNotNull => exact Iff.rfl
  | _ => simp only [bind_eq_ok_iff, h c.right]

/-- What a condition says depends only on the values that operands have. -/
theorem Condition.evaluate_congr (h : ∀ (operand : Operand) (v : Value),
      operand.value row schema = .ok v ↔ operand.value row' schema' = .ok v)
    (c : Condition) :
    c.evaluate row schema = .ok truth ↔ c.evaluate row' schema' = .ok truth := by
  induction c generalizing truth with
  | not c ih => simp only [evaluate, bind_eq_ok_iff, ih]
  | and a b iha ihb => simp only [evaluate, bind_eq_ok_iff, iha, ihb]
  | or a b iha ihb => simp only [evaluate, bind_eq_ok_iff, iha, ihb]
  | holds c => exact c.evaluate_congr h

namespace Record

variable {r r' : Record}

/-- A condition says the same of a record in another order. -/
theorem evaluate_perm (hperm : r.Perm r') (c : Condition) :
    c.evaluate r.row r.schema = .ok truth ↔ c.evaluate r'.row r'.schema = .ok truth :=
  c.evaluate_congr fun operand _ => value_perm hperm operand

/-- Whether a condition picks a record does not depend on the order of its columns. -/
theorem picks_perm (hperm : r.Perm r') (condition : Option Condition) :
    Condition.picks condition r.schema r.row = Condition.picks condition r'.schema r'.row := by
  cases condition with
  | none => rfl
  | some c => simp only [Condition.picks, Option.all_some, evaluate_perm hperm c]

end Record

end RelationalStore
