import RelationalStore.Proofs.Schema.Cells

/-!
# Conditions that compare cells with values

Keys and references are looked up by a condition: the conjunction of one equation for
each column. Such a condition is true of a row exactly when the row has, in each of the
columns, a value of the same standing as the one asked for. Two values are of the same
standing when they are comparable and neither is the greater; NULL is so with nothing,
and dates are so as soon as their ordinals agree.
-/

namespace RelationalStore

namespace Value

/-- The two values compare as equal. -/
def Same (a b : Value) : Prop :=
  a.compare b = .ok .eq

/-- Integers are the same exactly if they are equal. -/
@[simp] theorem same_integer_iff {x y : Int64} : Same (integer x) (integer y) ↔ x = y := by
  simp [Same, Value.compare, Int64.toInt_inj]

/-- Texts are the same exactly if they are equal. -/
@[simp] theorem same_char_iff {x y : String} : Same (char x) (char y) ↔ x = y := by
  simp [Same, Value.compare]

/-- Dates are the same exactly if they have the same ordinal. -/
@[simp] theorem same_date_iff {x y : Date} : Same (date x) (date y) ↔ x.ordinal = y.ordinal := by
  simp [Same, Value.compare]

/-- NULL is the same as nothing. -/
@[simp] theorem not_null_same {v : Value} : ¬ Same null v := by
  simp [Same, Value.compare]

/-- Nothing is the same as NULL. -/
@[simp] theorem not_same_null {v : Value} : ¬ Same v null := by
  cases v <;> simp [Same, Value.compare]

/-- Which of two values comes first does not matter for whether they are the same. -/
theorem Same.symm {a b : Value} (h : a.Same b) : b.Same a := by
  cases a with
  | null => exact absurd h not_null_same
  | integer x =>
    cases b with
    | integer y => exact same_integer_iff.mpr (same_integer_iff.mp h).symm
    | _ => cases h
  | char x =>
    cases b with
    | char y => exact same_char_iff.mpr (same_char_iff.mp h).symm
    | _ => cases h
  | date x =>
    cases b with
    | date y => exact same_date_iff.mpr (same_date_iff.mp h).symm
    | _ => cases h

/-- A value that is not NULL is the same as itself. -/
theorem same_self {v : Value} (h : v ≠ null) : v.Same v := by
  cases v with
  | null => exact absurd rfl h
  | integer x => exact same_integer_iff.mpr rfl
  | char x => exact same_char_iff.mpr rfl
  | date x => exact same_date_iff.mpr rfl

/-- What a comparison says of two values, by the orders that it accepts. -/
def weigh (accepts : Ordering → Bool) (a b : Value) : Except Error Truth := do
  if a.comparable b then
    if a.isNull || b.isNull then return .unknown
    else
      let order ← a.compare b
      return Truth.ofBool (accepts order)
  else .error .incomparable

/-- An equation of two values is true exactly of values that are the same. -/
theorem weigh_eq_yes_iff {a b : Value} :
    a.weigh Comparator.eq.accepts b = .ok .yes ↔ a.Same b := by
  have hyes (order : Ordering) :
      Truth.ofBool (Comparator.eq.accepts order) = .yes ↔ order = .eq := by
    cases order <;> decide
  cases a <;> cases b <;>
    simp [Same, weigh, Value.compare, comparable, isNull, dataType?, hyes]

end Value

/-- A comparison of two operands looks at both of them, the left one first. -/
theorem Comparison.evaluate_of_binary {c : Comparison} {row : Row} {schema : Schema}
    (hbinary : c.comparator.isUnary = false) :
    c.evaluate row schema = (do
      let v ← c.left.value row schema
      let w ← c.right.value row schema
      v.weigh c.comparator.accepts w) := by
  obtain ⟨comparator, left, right⟩ := c
  cases comparator with
  | isNull => cases hbinary
  | isNotNull => cases hbinary
  | _ => rfl

/-- The row has, in each of the columns, the value that is given for it. -/
def Cells.HoldIn (cells : Cells) (schema : Schema) (row : Row) : Prop :=
  ∀ x ∈ cells, ∃ v, schema.value? row x.1 = some v ∧ v.Same x.2

namespace Condition

variable {schema : Schema} {row : Row}

/-- A conjunction is true of a row exactly if both of its sides are. -/
theorem evaluate_and_eq_yes_iff {a b : Condition} :
    (and a b).evaluate row schema = .ok .yes ↔
      a.evaluate row schema = .ok .yes ∧ b.evaluate row schema = .ok .yes := by
  have hand (s t : Truth) : s.and t = .yes ↔ s = .yes ∧ t = .yes := by
    cases s <;> cases t <;> decide
  simp only [evaluate, bind_eq_ok_iff, pure_eq_ok_iff, hand]
  constructor
  · rintro ⟨_, ha, _, hb, rfl, rfl⟩
    exact ⟨ha, hb⟩
  · rintro ⟨ha, hb⟩
    exact ⟨_, ha, _, hb, rfl, rfl⟩

/-- One equation is true of a row that has the same value in its column. -/
theorem evaluate_columnIs_eq_yes_iff (hdistinct : schema.Distinct) {column : String} {v : Value} :
    (columnIs column v).evaluate row schema = .ok .yes ↔
      ∃ w, schema.value? row column = some w ∧ w.Same v := by
  have hbinary : (⟨.eq, .column none column, .const v⟩ : Comparison).comparator.isUnary = false :=
    rfl
  simp only [columnIs, evaluate, Comparison.evaluate_of_binary hbinary, bind_eq_ok_iff,
    hdistinct.value_column_eq_ok_iff, Operand.value_const, Except.ok.injEq, exists_eq_left',
    Value.weigh_eq_yes_iff]

/-- Equations that are joined to a condition one by one ask for themselves besides it. -/
theorem evaluate_foldl_and_eq_yes_iff (hdistinct : schema.Distinct) {cells : Cells}
    {c : Condition} :
    (cells.foldl (fun c x => .and c (columnIs x.1 x.2)) c).evaluate row schema = .ok .yes ↔
      c.evaluate row schema = .ok .yes ∧ cells.HoldIn schema row := by
  induction cells generalizing c with
  | nil => simp [Cells.HoldIn]
  | cons x rest ih =>
    rw [List.foldl_cons, ih, evaluate_and_eq_yes_iff, evaluate_columnIs_eq_yes_iff hdistinct]
    simp only [Cells.HoldIn, List.forall_mem_cons, and_assoc]

/-- The conjunction of equations is true of exactly the rows in which they all hold. -/
theorem evaluate_conjunction_eq_yes_iff (hdistinct : schema.Distinct) {cells : Cells}
    {c : Condition} (hc : conjunction cells = some c) :
    c.evaluate row schema = .ok .yes ↔ cells.HoldIn schema row := by
  cases cells with
  | nil => simp [conjunction] at hc
  | cons first rest =>
    simp only [conjunction, Option.some.injEq] at hc
    rw [← hc, evaluate_foldl_and_eq_yes_iff hdistinct, evaluate_columnIs_eq_yes_iff hdistinct]
    simp only [Cells.HoldIn, List.forall_mem_cons]

/-- A walk that keeps entries keeps exactly those on which the test holds. -/
theorem keep_eq_ok {α : Type} {test : α → Except Error Bool} {entries kept : List α}
    (h : keep test entries = .ok kept) : kept = entries.filter fun a => test a = .ok true := by
  induction entries generalizing kept with
  | nil => exact (Except.ok.inj h).symm
  | cons first rest ih =>
    simp only [keep, bind_eq_ok_iff, pure_eq_ok_iff] at h
    obtain ⟨holds, hfirst, others, hothers, rfl⟩ := h
    rw [ih hothers]
    cases holds with
    | true => simp [hfirst]
    | false => simp [hfirst]

/-- What is kept is what passes the test. -/
theorem mem_keep_iff {α : Type} {test : α → Except Error Bool} {entries kept : List α}
    (h : keep test entries = .ok kept) {a : α} : a ∈ kept ↔ a ∈ entries ∧ test a = .ok true := by
  simp [keep_eq_ok h]

/-- A walk comes to its end only if the test has an answer on every entry. -/
theorem exists_test_of_keep {α : Type} {test : α → Except Error Bool} {entries kept : List α}
    (h : keep test entries = .ok kept) : ∀ a ∈ entries, ∃ holds, test a = .ok holds := by
  induction entries generalizing kept with
  | nil => simp
  | cons first rest ih =>
    obtain ⟨holds, hfirst, h⟩ := bind_eq_ok_iff.mp h
    obtain ⟨others, hothers, _⟩ := bind_eq_ok_iff.mp h
    exact List.forall_mem_cons.mpr ⟨⟨holds, hfirst⟩, ih hothers⟩

/-- Where rows have been matched, the condition has a truth on each of them. -/
theorem exists_evaluate_of_matching {c : Condition} {rows : List Row}
    {entries : List (Row × Nat)} (h : matching (some c) schema rows = .ok entries)
    (hrow : row ∈ rows) : ∃ truth, c.evaluate row schema = .ok truth := by
  obtain ⟨i, hi⟩ := List.getElem?_of_mem hrow
  obtain ⟨holds, hholds⟩ :=
    exists_test_of_keep h (row, i) (List.mem_zipIdx_iff_getElem?.mpr hi)
  obtain ⟨truth, htruth, _⟩ := bind_eq_ok_iff.mp hholds
  exact ⟨truth, htruth⟩

/-- Whether the condition is true of a row; no condition at all is true of every row. -/
def picks (condition : Option Condition) (schema : Schema) (row : Row) : Bool :=
  condition.all fun c => c.evaluate row schema = .ok .yes

/-- The items that a test picks, by their positions. -/
theorem filter_eq_map_zipIdx {α : Type} (items : List α) (p : α → Bool) :
    items.filter p = (items.zipIdx.filter fun entry => p entry.1).map Prod.fst := by
  nth_rewrite 1 [← List.zipIdx_map_fst 0 items]
  exact List.filter_map

/-- The rows that a condition matches are those of which it is true, with their positions. -/
theorem matching_eq_ok {condition : Option Condition} {rows : List Row}
    {entries : List (Row × Nat)} (h : matching condition schema rows = .ok entries) :
    entries = rows.zipIdx.filter fun entry => picks condition schema entry.1 := by
  cases condition with
  | none =>
    obtain rfl := Except.ok.inj h
    simp [picks]
  | some c =>
    rw [keep_eq_ok h]
    refine List.filter_congr fun entry _ => ?_
    cases hc : c.evaluate entry.1 schema with
    | error e => simp [picks, hc, bind, Except.bind]
    | ok t => simp [picks, hc, bind, Except.bind, pure, Except.pure]

/-- The rows that a condition matches stand at the positions they are listed with. -/
theorem getElem?_of_mem_matching {condition : Option Condition} {rows : List Row}
    {entries : List (Row × Nat)} (h : matching condition schema rows = .ok entries)
    {entry : Row × Nat} (hentry : entry ∈ entries) : rows[entry.2]? = some entry.1 := by
  rw [matching_eq_ok h] at hentry
  exact List.mem_zipIdx_iff_getElem?.mp (List.mem_filter.mp hentry).1

/-- The position of a row is among those of the matched rows exactly if the row is matched. -/
theorem mem_positions_iff_of_matching {condition : Option Condition} {rows : List Row}
    {entries : List (Row × Nat)} (h : matching condition schema rows = .ok entries) {i : Nat}
    (hi : rows[i]? = some row) : i ∈ entries.map Prod.snd ↔ (row, i) ∈ entries := by
  constructor
  · intro hmem
    obtain ⟨⟨other, _⟩, hentry, rfl⟩ := List.mem_map.mp hmem
    have hother := getElem?_of_mem_matching h hentry
    obtain rfl : row = other := Option.some.inj (hi.symm.trans hother)
    exact hentry
  · exact fun hentry => List.mem_map.mpr ⟨_, hentry, rfl⟩

/-- The rows that a condition matches come in the order in which they are stored. -/
theorem sublist_of_matching {condition : Option Condition} {rows : List Row}
    {entries : List (Row × Nat)} (h : matching condition schema rows = .ok entries) :
    (entries.map Prod.fst).Sublist rows := by
  have hsublist : (entries.map Prod.fst).Sublist (rows.zipIdx.map Prod.fst) := by
    rw [matching_eq_ok h]
    exact List.filter_sublist.map Prod.fst
  rwa [List.zipIdx_map_fst] at hsublist

/-- The rows that a condition matches come in the order of their positions. -/
theorem pairwise_of_matching {condition : Option Condition} {rows : List Row}
    {entries : List (Row × Nat)} (h : matching condition schema rows = .ok entries) :
    (entries.map Prod.snd).Pairwise (· < ·) := by
  have hsublist : (entries.map Prod.snd).Sublist (rows.zipIdx.map Prod.snd) := by
    rw [matching_eq_ok h]
    exact List.filter_sublist.map Prod.snd
  rw [List.zipIdx_map_snd] at hsublist
  exact (List.pairwise_lt_range' 1).sublist hsublist

/-- The conjunction of equations matches exactly the rows in which they all hold, and
without any equation it matches every row. -/
theorem mem_matching_conjunction_iff (hdistinct : schema.Distinct) {cells : Cells}
    {rows : List Row} {entries : List (Row × Nat)}
    (h : matching (conjunction cells) schema rows = .ok entries) {i : Nat} :
    (row, i) ∈ entries ↔ rows[i]? = some row ∧ cells.HoldIn schema row := by
  have hzip : (row, i) ∈ rows.zipIdx ↔ rows[i]? = some row := List.mem_zipIdx_iff_getElem?
  rw [← hzip]
  cases hc : conjunction cells with
  | none =>
    have hnil : cells = [] := by
      cases cells with
      | nil => rfl
      | cons first rest => simp [conjunction] at hc
    simp only [hc, matching, Except.ok.injEq] at h
    simp [hnil, Cells.HoldIn, h]
  | some c =>
    rw [hc] at h
    rw [mem_keep_iff h, ← evaluate_conjunction_eq_yes_iff hdistinct hc]
    refine and_congr_right fun _ => ?_
    cases c.evaluate row schema with
    | error e => simp [bind, Except.bind]
    | ok t => simp [bind, Except.bind]

end Condition

end RelationalStore
