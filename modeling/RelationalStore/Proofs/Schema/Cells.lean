import Mathlib.Data.List.Nodup
import RelationalStore.Condition.Basic
import RelationalStore.Proofs.Result
import RelationalStore.Table.Basic

/-!
# The cells of a row

A row is a list of values, and a schema says which of them belongs to which column.
Operands, key lookups and foreign keys reach a cell in different ways: by resolving a
reference or by searching for a column. In a schema whose columns have different names
they all reach the cell that `Schema.value?` names.
-/

namespace RelationalStore

/-- A constant has its value in every row. -/
@[simp] theorem Operand.value_const {v : Value} {row : Row} {schema : Schema} :
    (const v).value row schema = .ok v := rfl

namespace Schema

/-- No two columns of the schema have the same name. -/
def Distinct (schema : Schema) : Prop :=
  (schema.map (·.name)).Nodup

/-- The position of the first column of a name. -/
def position? (schema : Schema) (column : String) : Option Nat :=
  schema.findIdx? (·.name == column)

/-- The value that a row has in the first column of a name. -/
def value? (schema : Schema) (row : Row) (column : String) : Option Value :=
  (schema.position? column).bind fun position => row[position]?

variable {schema : Schema} {row : Row} {column : String}

/-- A row has a value in a column exactly if it has one at the position of the column. -/
theorem value?_eq_some_iff {v : Value} :
    schema.value? row column = some v ↔
      ∃ i, schema.position? column = some i ∧ row[i]? = some v := by
  simp only [value?, Option.bind_eq_some_iff]

/-- The position of a column is that of an attribute of its name. -/
theorem getElem?_of_position? {i : Nat} (h : schema.position? column = some i) :
    ∃ a, schema[i]? = some a ∧ a.name = column := by
  obtain ⟨hi, hname, _⟩ := List.findIdx?_eq_some_iff_getElem.mp h
  exact ⟨schema[i], List.getElem?_eq_getElem hi, by simpa using hname⟩

/-- Attributes of one name in a schema of different names are the same. -/
theorem Distinct.eq_of_name_eq (hdistinct : schema.Distinct) {a b : Attribute}
    (ha : a ∈ schema) (hb : b ∈ schema) (hname : a.name = b.name) : a = b :=
  List.inj_on_of_nodup_map hdistinct ha hb hname

/-- A column has a position as soon as an attribute has its name. -/
theorem exists_position? {a : Attribute} (ha : a ∈ schema) :
    ∃ i, schema.position? a.name = some i := by
  rw [← Option.isSome_iff_exists, position?, List.findIdx?_isSome, List.any_eq_true]
  exact ⟨a, ha, by simp⟩

/-- The numbers of the attributes that answer to a bare name, counted from any number on,
are at most one among different names. -/
theorem Distinct.map_snd_filter_zipIdx (hdistinct : schema.Distinct) (column : String) (n : Nat) :
    ((schema.zipIdx n).filter fun e => e.1.answersTo none column).map Prod.snd =
      (schema.position? column).toList.map (· + n) := by
  induction schema generalizing n with
  | nil => simp [position?]
  | cons a rest ih =>
    obtain ⟨hnew, hrest⟩ := List.nodup_cons.mp hdistinct
    have ih := ih hrest (n + 1)
    by_cases hname : a.name = column
    · subst hname
      have hnone : position? rest a.name = none := by
        rw [position?, List.findIdx?_eq_none_iff]
        intro b hb
        simp only [beq_eq_false_iff_ne]
        exact fun heq => hnew (List.mem_map.mpr ⟨b, hb, heq⟩)
      rw [hnone] at ih
      simp only [Option.toList_none, List.map_nil, List.map_eq_nil_iff] at ih
      rw [List.zipIdx_cons, List.filter_cons_of_pos (by simp [Attribute.answersTo]), ih]
      simp [position?, List.findIdx?_cons]
    · have hfirst : a.answersTo none column = false := by simp [Attribute.answersTo, hname]
      rw [List.zipIdx_cons, List.filter_cons_of_neg (by simp [hfirst]), ih]
      simp only [position?, List.findIdx?_cons, beq_iff_eq, hname, if_false]
      cases List.findIdx? (fun b : Attribute => b.name == column) rest with
      | none => rfl
      | some i =>
        have hshift : i + (n + 1) = i + 1 + n := by omega
        simp [hshift]

/-- Where names are distinct, a bare name is answered at the position of its column only. -/
theorem Distinct.positions_eq (hdistinct : schema.Distinct) (column : String) :
    schema.positions (·.answersTo none column) = (schema.position? column).toList := by
  simpa [positions] using hdistinct.map_snd_filter_zipIdx column 0

/-- The reference is to the attribute at the position: this one answers to it, and no other
one does. -/
def AnswersAt (schema : Schema) (table : Option String) (column : String) (i : Nat) : Prop :=
  ∀ j, (∃ a, schema[j]? = some a ∧ a.answersTo table column = true) ↔ j = i

/-- A reference is to one attribute at most. -/
theorem AnswersAt.unique {table : Option String} {i j : Nat}
    (hi : schema.AnswersAt table column i) (hj : schema.AnswersAt table column j) : i = j :=
  (hj i).mp ((hi i).mpr rfl)

/-- A reference is answered by a column of the schema. -/
theorem AnswersAt.lt_length {table : Option String} {i : Nat}
    (h : schema.AnswersAt table column i) : i < schema.length := by
  obtain ⟨_, ha, _⟩ := (h i).mpr rfl
  exact (List.getElem?_eq_some_iff.mp ha).1

/-- The positions of a property are those of the columns that have it. -/
theorem mem_positions_iff {holds : Attribute → Bool} {i : Nat} :
    i ∈ schema.positions holds ↔ ∃ a, schema[i]? = some a ∧ holds a = true := by
  simp only [positions, List.mem_map, List.mem_filter, Prod.exists, exists_eq_right,
    List.mem_zipIdx_iff_getElem?]

/-- No position is listed twice. -/
theorem nodup_positions (holds : Attribute → Bool) : (schema.positions holds).Nodup := by
  have hsublist : (schema.positions holds).Sublist (schema.zipIdx.map Prod.snd) :=
    List.filter_sublist.map Prod.snd
  rw [List.zipIdx_map_snd] at hsublist
  exact hsublist.nodup List.nodup_range'

/-- A reference resolves exactly if one position is that of an attribute which answers to it. -/
theorem resolve_eq_ok_iff_positions {table : Option String} {i : Nat} :
    schema.resolve table column = .ok i ↔
      schema.positions (·.answersTo table column) = [i] := by
  unfold resolve
  split
  · next position hpositions => simp [hpositions]
  · next hpositions => simp [hpositions]
  · next hpositions =>
    cases table with
    | none => simp [hpositions]
    | some t =>
      dsimp only
      split
      · simp [hpositions]
      · simp [hpositions]

/-- A reference resolves exactly if it is to one attribute. -/
theorem resolve_eq_ok_iff {table : Option String} {i : Nat} :
    schema.resolve table column = .ok i ↔ schema.AnswersAt table column i := by
  rw [resolve_eq_ok_iff_positions, AnswersAt]
  simp only [← mem_positions_iff]
  constructor
  · intro hpositions j
    rw [hpositions, List.mem_singleton]
  · intro hmem
    refine List.perm_singleton.mp ?_
    refine (List.perm_ext_iff_of_nodup (nodup_positions _) (List.nodup_singleton i)).mpr ?_
    exact fun j => (hmem j).trans List.mem_singleton.symm

/-- A bare name resolves, among different names, to the position of its column. -/
theorem Distinct.resolve_eq_ok_iff (hdistinct : schema.Distinct) {i : Nat} :
    schema.resolve none column = .ok i ↔ schema.position? column = some i := by
  rw [resolve, hdistinct.positions_eq]
  cases schema.position? column with
  | none => simp
  | some j => simp

/-- A column that is named has the value of the row at the position of its attribute. -/
theorem value_column_eq_ok_iff {table : Option String} {v : Value} :
    (Operand.column table column).value row schema = .ok v ↔
      ∃ i, schema.AnswersAt table column i ∧ row[i]? = some v := by
  simp only [Operand.value, bind_eq_ok_iff, resolve_eq_ok_iff]
  refine exists_congr fun i => and_congr_right fun _ => ?_
  cases row[i]? with
  | none => simp
  | some w => simp

/-- The operand that names a bare column has the value of the row in that column. -/
theorem Distinct.value_column_eq_ok_iff (hdistinct : schema.Distinct) {v : Value} :
    (Operand.column none column).value row schema = .ok v ↔
      schema.value? row column = some v := by
  simp only [Schema.value_column_eq_ok_iff, ← Schema.resolve_eq_ok_iff,
    hdistinct.resolve_eq_ok_iff, value?_eq_some_iff]

end Schema

namespace Table

variable {t : Table} {row : Row}

/-- No column is found under a name exactly if the table has none of this name. -/
theorem attribute?_isNone_iff {name : String} :
    (t.attribute? name).isNone = true ↔ ¬ ∃ a ∈ t.schema, a.name = name := by
  simp [attribute?]

/-- The index of a column is its position, if it has one. -/
theorem columnIndex_eq_ok_iff {column : String} {i : Nat} :
    t.columnIndex column = .ok i ↔ t.schema.position? column = some i := by
  rw [columnIndex, Schema.position?]
  cases t.schema.findIdx? (·.name == column) with
  | none => simp
  | some j => simp

/-- Looking up a cell gives its column together with the value that the row has there. -/
theorem cell_eq_ok_iff {column : String} {x : String × Value} :
    t.cell row column = .ok x ↔ ∃ v, t.schema.value? row column = some v ∧ x = (column, v) := by
  simp only [cell, bind_eq_ok_iff, columnIndex_eq_ok_iff, Schema.value?_eq_some_iff]
  constructor
  · rintro ⟨i, hi, hx⟩
    cases hrow : row[i]? with
    | none => simp [hrow] at hx
    | some v =>
      simp only [hrow, Except.ok.injEq] at hx
      exact ⟨v, ⟨i, hi, hrow⟩, hx.symm⟩
  · rintro ⟨v, ⟨i, hi, hrow⟩, rfl⟩
    exact ⟨i, hi, by simp [hrow]⟩

/-- Looking up some columns gives a cell for each of them, in their order. -/
theorem cells_eq_ok_iff {columns : List String} {cells : Cells} :
    t.cells row columns = .ok cells ↔
      List.Forall₂ (fun column x => ∃ v, t.schema.value? row column = some v ∧ x = (column, v))
        columns cells := by
  simp only [Table.cells, mapM_eq_ok_iff, cell_eq_ok_iff]

end Table

end RelationalStore
