import RelationalStore.Proofs.Condition.Equality
import RelationalStore.Proofs.Failing

/-!
# What can go wrong with a condition

On a row that has a value for each column of the schema, a condition fails only because of
what it says: a column that it names, or a comparison of different types. A condition that
the store makes itself, to look up a key, names columns of the schema and compares values of
one type, and so it cannot fail at all.
-/

namespace RelationalStore

namespace Schema

variable {schema : Schema} {row : Row}

/-- A column that a reference resolves to is one of the schema. -/
theorem lt_length_of_resolve {table : Option String} {column : String} {i : Nat}
    (h : schema.resolve table column = .ok i) : i < schema.length :=
  AnswersAt.lt_length (resolve_eq_ok_iff.mp h)

/-- A reference to a column is resolved, or fails for what the condition says. -/
theorem resolve_failsOnly (table : Option String) (column : String) :
    FailsOnly (fun e => e.topic = .condition) (schema.resolve table column) := by
  unfold resolve
  split
  · exact .ok _
  · exact .error rfl
  · cases table with
    | none => exact .error rfl
    | some t =>
      dsimp only
      split
      · exact .error rfl
      · exact .error rfl

end Schema

namespace Value

variable {a b : Value}

/-- Present values that may stand in one comparison have an order. -/
theorem exists_compare (h : a.comparable b = true) (ha : a.isNull = false)
    (hb : b.isNull = false) : ∃ order, a.compare b = .ok order := by
  cases a with
  | null => cases ha
  | integer x =>
    cases b with
    | integer y => exact ⟨_, rfl⟩
    | null => cases hb
    | _ => cases h
  | char x =>
    cases b with
    | char y => exact ⟨_, rfl⟩
    | null => cases hb
    | _ => cases h
  | date x =>
    cases b with
    | date y => exact ⟨_, rfl⟩
    | null => cases hb
    | _ => cases h

/-- Two values are weighed unless they have different types. -/
theorem weigh_failsOnly {P : Error → Prop} {accepts : Ordering → Bool}
    (hcomparable : a.comparable b = false → P .incomparable) :
    FailsOnly P (a.weigh accepts b) := by
  unfold weigh
  split
  · next hsame =>
    split
    · exact .ok _
    · next hpresent =>
      simp only [Bool.or_eq_true, not_or, Bool.not_eq_true] at hpresent
      obtain ⟨order, horder⟩ := exists_compare hsame hpresent.1 hpresent.2
      rw [horder]
      exact .ok _
  · next hother => exact .error (hcomparable (Bool.eq_false_iff.mpr hother))

end Value

/-- The row has, in each of the columns, a value that can be compared with the given one. -/
def Cells.ComparableIn (cells : Cells) (schema : Schema) (row : Row) : Prop :=
  ∀ x ∈ cells, ∃ v, schema.value? row x.1 = some v ∧ v.comparable x.2 = true

variable {schema : Schema} {row : Row} {P : Error → Prop}

/-- On a row of the right length an operand has a value, or fails for what the condition says. -/
theorem Operand.value_failsOnly (hlength : row.length = schema.length) (operand : Operand) :
    FailsOnly (fun e => e.topic = .condition) (operand.value row schema) := by
  cases operand with
  | const v => exact .ok v
  | column table name =>
    refine (Schema.resolve_failsOnly table name).bind fun i hi => ?_
    have hbound : i < row.length := hlength ▸ Schema.lt_length_of_resolve hi
    rw [List.getElem?_eq_getElem hbound]
    exact .ok _

/-- A comparison fails only with what its operands fail with, or because these are not
comparable. -/
theorem Comparison.evaluate_failsOnly {c : Comparison}
    (hleft : FailsOnly P (c.left.value row schema))
    (hright : FailsOnly P (c.right.value row schema))
    (hcomparable : ∀ v w, c.left.value row schema = .ok v → c.right.value row schema = .ok w →
      v.comparable w = false → P .incomparable) :
    FailsOnly P (c.evaluate row schema) := by
  cases hunary : c.comparator.isUnary with
  | true =>
    obtain ⟨comparator, left, right⟩ := c
    refine hleft.bind fun v _ => ?_
    cases comparator with
    | isNull => exact .ok _
    | isNotNull => exact .ok _
    | _ => cases hunary
  | false =>
    rw [evaluate_of_binary hunary]
    exact hleft.bind fun v hv => hright.bind fun w hw =>
      Value.weigh_failsOnly (hcomparable v w hv hw)

namespace Condition

/-- On a row that is as long as the schema, a condition fails because of what it says. -/
theorem evaluate_failsOnly (hlength : row.length = schema.length) (c : Condition) :
    FailsOnly (fun e => e.topic = .condition) (c.evaluate row schema) := by
  induction c with
  | not c ih => exact ih.bind fun t _ => .ok t.not
  | and a b iha ihb => exact iha.bind fun s _ => ihb.bind fun t _ => .ok (s.and t)
  | or a b iha ihb => exact iha.bind fun s _ => ihb.bind fun t _ => .ok (s.or t)
  | holds c =>
    exact Comparison.evaluate_failsOnly (Operand.value_failsOnly hlength _)
      (Operand.value_failsOnly hlength _) fun _ _ _ _ _ => rfl

/-- One equation has a truth on a row with a comparable value in its column. -/
theorem evaluate_columnIs_succeeds (hdistinct : schema.Distinct) {column : String}
    {v w : Value} (hw : schema.value? row column = some w) (hcomparable : w.comparable v = true) :
    FailsOnly (fun _ => False) ((columnIs column v).evaluate row schema) := by
  have hleft : (Operand.column none column).value row schema = .ok w :=
    hdistinct.value_column_eq_ok_iff.mpr hw
  refine Comparison.evaluate_failsOnly (.of_exists_ok ⟨w, hleft⟩) (.ok v) ?_
  intro w' v' hw' hv' hother
  obtain rfl := Except.ok.inj (hleft.symm.trans hw')
  obtain rfl := Except.ok.inj hv'
  rw [hcomparable] at hother
  cases hother

/-- The conjunction of equations has a truth on a row with comparable values. -/
theorem evaluate_conjunction_succeeds (hdistinct : schema.Distinct) {cells : Cells}
    (h : cells.ComparableIn schema row) {c : Condition} (hc : conjunction cells = some c) :
    FailsOnly (fun _ => False) (c.evaluate row schema) := by
  have heach : ∀ x ∈ cells, FailsOnly (fun _ => False)
      ((columnIs x.1 x.2).evaluate row schema) := by
    intro x hx
    obtain ⟨w, hw, hcomparable⟩ := h x hx
    exact evaluate_columnIs_succeeds hdistinct hw hcomparable
  cases cells with
  | nil => cases hc
  | cons first rest =>
    obtain rfl := Option.some.inj hc
    rw [List.forall_mem_cons] at heach
    obtain ⟨hfirst, hrest⟩ := heach
    clear h hc
    -- the equations are joined from left to right, behind what has been joined so far
    generalize columnIs first.1 first.2 = joined at hfirst
    induction rest generalizing joined with
    | nil => exact hfirst
    | cons x rest ih =>
      rw [List.forall_mem_cons] at hrest
      refine ih hrest.2 (.and joined (columnIs x.1 x.2)) ?_
      exact hfirst.bind fun s _ => hrest.1.bind fun t _ => .ok (s.and t)

/-- Filtering entries fails with nothing but what the test fails with. -/
theorem keep_failsOnly {α : Type} {test : α → Except Error Bool} {entries : List α}
    (h : ∀ a ∈ entries, FailsOnly P (test a)) : FailsOnly P (keep test entries) := by
  induction entries with
  | nil => exact .ok []
  | cons a rest ih =>
    rw [List.forall_mem_cons] at h
    exact h.1.bind fun _ _ => (ih h.2).bind fun _ _ => .ok _

/-- A condition is matched against rows until it fails on one of them. -/
theorem matching_failsOnly (condition : Option Condition) (rows : List Row) :
    FailsOnly (fun e => ∃ c row, condition = some c ∧ row ∈ rows ∧
      c.evaluate row schema = .error e) (matching condition schema rows) := by
  cases condition with
  | none => exact .ok _
  | some c =>
    refine keep_failsOnly fun entry hentry => ?_
    have hrow : entry.1 ∈ rows :=
      List.mem_of_getElem? (List.mem_zipIdx_iff_getElem?.mp hentry)
    have hevaluate : FailsOnly (fun e => ∃ c' row, some c = some c' ∧ row ∈ rows ∧
        c'.evaluate row schema = .error e) (c.evaluate entry.1 schema) :=
      fun e he => ⟨c, entry.1, rfl, hrow, he⟩
    exact hevaluate.bind fun _ _ => .ok _

/-- The lookup of a key succeeds among rows with comparable values. -/
theorem exists_matching_conjunction (hdistinct : schema.Distinct) {cells : Cells}
    {rows : List Row} (h : ∀ row ∈ rows, cells.ComparableIn schema row) :
    ∃ entries, matching (conjunction cells) schema rows = .ok entries := by
  refine ((matching_failsOnly _ _).mono ?_).exists_ok
  rintro e ⟨c, row, hc, hrow, he⟩
  exact evaluate_conjunction_succeeds hdistinct (h row hrow) hc e he

end Condition

end RelationalStore
