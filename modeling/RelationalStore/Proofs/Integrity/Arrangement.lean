import RelationalStore.Proofs.Integrity.Acceptance

/-!
# Insertions with a list of columns

A list of columns only says where the values belong. Where the columns of a table have
different names, the values of a list are laid out in one way, and the insertion with the list
is the one of the row that results: it succeeds together with it, stores the same tables, and
fails for the same cause, also if the row has several faults.
-/

namespace RelationalStore

/-- The value belongs to the column: it is listed at the place of its name, or it is NULL and the
name is not listed. -/
def Attribute.Takes (a : Attribute) (names : List String) (values : List Value) (v : Value) :
    Prop :=
  (∃ i : Nat, names[i]? = some a.name ∧ values[i]? = some v) ∨ a.name ∉ names ∧ v = .null

namespace Table

/-- The row has, in the order of the schema, the values that belong to the columns. -/
def LaysOut (t : Table) (names : List String) (values : List Value) (row : Row) : Prop :=
  List.Forall₂ (fun a v => a.Takes names values v) t.schema row

variable {t : Table} {names : List String} {values : List Value} {row : Row}

/-- A value is looked up under a name exactly if both stand at the same place of their lists, as
a name that is not repeated has no other place. -/
theorem lookup_zip_eq_some_iff (hnodup : names.Nodup) {name : String} {v : Value} :
    (names.zip values).lookup name = some v ↔
      ∃ i : Nat, names[i]? = some name ∧ values[i]? = some v := by
  induction names generalizing values with
  | nil => simp
  | cons other names ih =>
    obtain ⟨hnew, hnodup⟩ := List.nodup_cons.mp hnodup
    cases values with
    | nil => simp
    | cons w values =>
      rw [List.zip_cons_cons, List.lookup_cons]
      by_cases hname : name = other
      · subst hname
        rw [beq_self_eq_true]
        constructor
        · intro hw
          exact ⟨0, rfl, hw⟩
        · rintro ⟨_ | i, hi, hv⟩
          · exact hv
          · have hmem : name ∈ names := List.mem_of_getElem? hi
            exact absurd hmem hnew
      · rw [beq_false_of_ne hname]
        refine (ih hnodup).trans ⟨fun ⟨i, hi, hv⟩ => ⟨i + 1, hi, hv⟩, ?_⟩
        rintro ⟨_ | i, hi, hv⟩
        · exact absurd (Option.some.inj hi).symm hname
        · exact ⟨i, hi, hv⟩

/-- Nothing is looked up under a name exactly if it is not listed. -/
theorem lookup_zip_eq_none_iff (hlength : names.length = values.length) {name : String} :
    (names.zip values).lookup name = none ↔ name ∉ names := by
  have hnames : (names.zip values).map Prod.fst = names := List.map_fst_zip hlength.le
  rw [List.lookup_eq_none_iff]
  constructor
  · intro hnone hmem
    rw [← hnames] at hmem
    obtain ⟨x, hx, rfl⟩ := List.mem_map.mp hmem
    simpa using hnone x hx
  · intro hnew x hx
    have hmem : x.1 ∈ names := (List.of_mem_zip hx).1
    exact bne_iff_ne.mpr fun heq => hnew (heq ▸ hmem)

/-- One value belongs to each column. -/
theorem Lists.takes_iff (h : t.Lists names values) {a : Attribute} {v : Value} :
    a.Takes names values v ↔ ((names.zip values).lookup a.name).getD .null = v := by
  rw [Attribute.Takes, ← lookup_zip_eq_some_iff h.different,
    ← lookup_zip_eq_none_iff h.length_eq]
  cases (names.zip values).lookup a.name with
  | none => simp [eq_comm]
  | some w => simp [eq_comm]

/-- The values of a list are laid out in one row. -/
theorem Lists.laysOut_iff (h : t.Lists names values) :
    t.LaysOut names values row ↔ row = t.completedRow (some names) values := by
  simp only [LaysOut, h.takes_iff, completedRow]
  rw [← List.forall₂_map_left_iff (R := Eq), List.forall₂_eq_eq_eq, eq_comm]

/-- The row that a list lays out is the one that is given with it. -/
theorem Lists.givenRow_eq (h : t.Lists names values) (hdistinct : t.schema.Distinct)
    (hrow : t.LaysOut names values row) :
    t.givenRow (some names) values = t.givenRow none row := by
  have hwhole : t.givenRow none row = .ok row := if_pos hrow.length_eq.symm
  rw [hwhole, givenRow_some_eq_ok_iff hdistinct]
  exact ⟨h, h.laysOut_iff.mp hrow⟩

/-- With a list of columns an insertion does what it does with the row of the list. -/
theorem Lists.insert_eq (h : t.Lists names values) (hdistinct : t.schema.Distinct)
    (hrow : t.LaysOut names values row) (read : TableReader) :
    t.insert (some names) values read = t.insert none row read := by
  simp only [insert, buildRow, h.givenRow_eq hdistinct hrow]

end Table

namespace TableStore

variable {c : TableStore Memory} {t : Table} {name : String}

/-- In a reachable catalog, the values that are listed with names of different columns make up
one row, and inserting them gives what inserting this row gives: the same outcome or failure,
and the same tables. -/
theorem Reachable.insert_rearranged (h : Reachable c)
    (ht : Catalog.load c name = .ok (some t)) {names : List String} {values : List Value}
    (hlists : t.Lists names values) :
    ∃ row, (∀ row', t.LaysOut names values row' ↔ row' = row) ∧
      (Statement.insert name (some names) values).execute c =
        (Statement.insert name none row).execute c := by
  obtain ⟨tables, hholds, hsound⟩ := h.sound
  have hfind := (hholds.load_eq_some_iff h.fitsMemory).mp ht
  have hdistinct := (hsound.sound name t hfind).distinct
  refine ⟨t.completedRow (some names) values, fun row' => hlists.laysOut_iff, ?_⟩
  rw [execute_insert ht, execute_insert ht, hlists.insert_eq hdistinct (hlists.laysOut_iff.mpr rfl)]

/-- A player whose team is listed before the number is inserted as one with the number first. -/
theorem insert_rearranged_sample :
    (Statement.insert "player" (some ["team", "id"]) [.integer 1, .integer 9]).execute sample =
      (Statement.insert "player" none [.integer 9, .integer 1]).execute sample := by
  have hlists : samplePlayers.Lists ["team", "id"] [.integer 1, .integer 9] :=
    ⟨rfl, by decide, by decide⟩
  have hrow : samplePlayers.LaysOut ["team", "id"] [.integer 1, .integer 9]
      [.integer 9, .integer 1] :=
    .cons (.inl ⟨1, rfl, rfl⟩) (.cons (.inl ⟨0, rfl, rfl⟩) .nil)
  obtain ⟨row, hunique, hsame⟩ := reachable_sample.insert_rearranged load_sample hlists
  obtain rfl := (hunique _).mp hrow
  exact hsame

end TableStore

end RelationalStore
