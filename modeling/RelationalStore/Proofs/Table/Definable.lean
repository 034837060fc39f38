import RelationalStore.Proofs.Table.Referable

/-!
# Which definitions are accepted

A definition is checked while its table is built: columns are added one by one and then marked
as the primary key, and the checks of the foreign keys look at columns that are marked by then.
The outcome does not depend on this order. A definition is accepted exactly if its columns and
clauses, read as they are written, keep to the rules, and the table that it makes can be
written down at once.
-/

namespace RelationalStore

/-- The column of a table as it is defined, before keys are looked at. -/
def ColumnDefinition.attribute (c : ColumnDefinition) (table : String) : Attribute :=
  let length := if c.dataType = .char then c.charLength.toUInt64 else 0
  { Attribute.plain c.name c.dataType length c.nullable with table := table }

namespace Table

/-- What a definition has to keep to. -/
structure Definable (read : TableReader) (name : String) (columns : List ColumnDefinition)
    (constraints : List TableConstraint) : Prop where
  /-- The columns and the constraints together have at most one primary key clause. -/
  one_key : (keyClauses columns constraints).length ≤ 1
  different : (columns.map (·.name)).Nodup
  positive : ∀ c ∈ columns, c.dataType = .char → 0 < c.charLength
  key_defined : ∀ column ∈ (keyClauses columns constraints).flatten,
    ∃ c ∈ columns, c.name = column
  referable : Referable read (columns.map (·.attribute name)) constraints

/-- The table of a definition before its foreign keys are added. -/
def keyed (name : String) (columns : List ColumnDefinition) (key : List String) : Table :=
  { blank name with
    schema := columns.map fun c =>
      if c.name ∈ key then (c.attribute name).asPrimary else c.attribute name
    primaryKey := key.eraseDups }

/-- The table of a definition, which has no rows. -/
def defined (name : String) (columns : List ColumnDefinition)
    (constraints : List TableConstraint) : Table :=
  (keyed name columns (keyClauses columns constraints).flatten).withReferences constraints

variable {t t' target : Table} {read : TableReader} {name : String} {schema : Schema}
  {sources references : List String} {columns : List ColumnDefinition}
  {constraints : List TableConstraint}

/-- Columns are added exactly if their names are different and new, and texts have a length. -/
theorem addColumns_eq_ok_iff : t.addColumns columns = .ok t' ↔
    ((∀ c ∈ columns, ∀ a ∈ t.schema, a.name ≠ c.name) ∧ (columns.map (·.name)).Nodup) ∧
      (∀ c ∈ columns, c.dataType = .char → 0 < c.charLength) ∧
      t' = { t with schema := t.schema ++ columns.map (·.attribute t.name) } := by
  induction columns generalizing t with
  | nil => simp [addColumns, eq_comm]
  | cons c rest ih =>
    have happend : t.schema ++ (c :: rest).map (·.attribute t.name) =
        (t.schema ++ [c.attribute t.name]) ++ rest.map (·.attribute t.name) := by simp
    have hnew : ¬ (t.attribute? c.name).isSome = true ↔ ∀ a ∈ t.schema, a.name ≠ c.name := by
      rw [Bool.not_eq_true, Option.isSome_eq_false_iff, attribute?_isNone_iff]
      simp
    have hfresh : (∀ d ∈ rest, ∀ a ∈ t.schema ++ [c.attribute t.name], a.name ≠ d.name) ↔
        (∀ d ∈ rest, ∀ a ∈ t.schema, a.name ≠ d.name) ∧ c.name ∉ rest.map (·.name) := by
      simp only [List.forall_mem_append, List.forall_mem_singleton, forall₂_and, List.mem_map,
        not_exists, not_and]
      exact and_congr_right fun _ => forall₂_congr fun _ _ => ne_comm
    constructor
    · intro h
      unfold addColumns at h
      split at h
      · cases h
      · next hc =>
        split at h
        · cases h
        · next hlength =>
          obtain ⟨⟨hrest, hnodup⟩, hpositive, rfl⟩ := ih.mp h
          obtain ⟨hrest, hc'⟩ := hfresh.mp hrest
          refine ⟨⟨List.forall_mem_cons.mpr ⟨hnew.mp hc, hrest⟩,
            List.nodup_cons.mpr ⟨hc', hnodup⟩⟩, List.forall_mem_cons.mpr ⟨fun hchar => ?_,
            hpositive⟩, ?_⟩
          · exact Int64.not_le.mp fun hle => hlength ⟨hchar, hle⟩
          · rw [happend]
            rfl
    · rintro ⟨⟨hrest, hnodup⟩, hpositive, rfl⟩
      rw [List.forall_mem_cons] at hrest hpositive
      obtain ⟨hc', hnodup⟩ := List.nodup_cons.mp hnodup
      have hlength : ¬ (c.dataType = .char ∧ c.charLength ≤ 0) := by
        rintro ⟨hchar, hle⟩
        exact Int64.not_le.mpr (hpositive.1 hchar) hle
      rw [addColumns, if_neg (hnew.mpr hrest.1), if_neg hlength]
      refine ih.mpr ⟨⟨hfresh.mpr ⟨hrest.2, hc'⟩, hnodup⟩, hpositive.2, ?_⟩
      rw [happend]
      rfl

/-- A name that is put behind a list if it is new there is put there once. -/
theorem append_eraseDups_filter (key : List String) (column : String) (rest : List String) :
    (if column ∈ key then key else key ++ [column]) ++
        (rest.filter (· ∉ if column ∈ key then key else key ++ [column])).eraseDups =
      key ++ ((column :: rest).filter (· ∉ key)).eraseDups := by
  by_cases hcolumn : column ∈ key
  · simp [hcolumn]
  · have hfilter : (rest.filter fun name => decide (name ∉ key ++ [column])) =
        (rest.filter fun name => decide (name ∉ key)).filter fun name => !name == column := by
      rw [List.filter_filter]
      refine List.filter_congr fun name _ => ?_
      by_cases hname : name = column
      · simp [hname]
      · simp [hname]
    rw [if_neg hcolumn, List.filter_cons_of_pos (by simpa using hcolumn), List.eraseDups_cons,
      hfilter, List.append_assoc, List.singleton_append]

/-- Key columns are marked exactly if all of them are defined. -/
theorem addKeyColumns_eq_ok_iff {key : List String} (hdistinct : t.schema.Distinct) :
    t.addKeyColumns key = .ok t' ↔
      (∀ column ∈ key, ∃ a ∈ t.schema, a.name = column) ∧
        t' = { t with
          schema := t.schema.map fun a => if a.name ∈ key then a.asPrimary else a
          primaryKey := t.primaryKey ++ (key.filter (· ∉ t.primaryKey)).eraseDups } := by
  induction key generalizing t with
  | nil => simp [addKeyColumns, eq_comm]
  | cons column rest ih =>
    have hmap := modifyAttribute_eq_map hdistinct column Attribute.asPrimary
    have hname (a : Attribute) : (if a.name = column then a.asPrimary else a).name = a.name := by
      split
      · rfl
      · rfl
    have hmarked : Schema.Distinct
        (t.schema.map fun a => if a.name = column then a.asPrimary else a) := by
      simpa only [Schema.Distinct, List.map_map, Function.comp_def, hname] using hdistinct
    have htwice (a : Attribute) :
        (if a.name ∈ rest then (if a.name = column then a.asPrimary else a).asPrimary
          else if a.name = column then a.asPrimary else a) =
        if a.name ∈ column :: rest then a.asPrimary else a := by
      by_cases ha : a.name = column
      · simp [ha, Attribute.asPrimary]
      · simp [ha]
    rw [addKeyColumns, List.forall_mem_cons]
    by_cases hcolumn : ∃ a ∈ t.schema, a.name = column
    · have hthere : ¬ (t.attribute? column).isNone = true :=
        fun hnone => attribute?_isNone_iff.mp hnone hcolumn
      rw [if_neg hthere]
      simp only [modifyAttribute, hmap]
      rw [ih hmarked]
      simp only [List.mem_map, exists_exists_and_eq_and, hname, List.map_map, Function.comp_def,
        htwice, hcolumn, true_and, append_eraseDups_filter]
    · rw [if_pos (attribute?_isNone_iff.mpr hcolumn)]
      simp [hcolumn]

/-- The columns of a key are marked and the others are as they are defined. -/
theorem schema_keyed {key : List String} : (keyed name columns key).schema =
    (columns.map (·.attribute name)).map fun a => if a.name ∈ key then a.asPrimary else a := by
  rw [keyed, List.map_map]
  rfl

/-- The columns of a definition are added and marked as a key exactly if they are well defined
and all key columns are among them. -/
theorem add_eq_ok_iff {key : List String} :
    (∃ u, (blank name).addColumns columns = .ok u ∧ u.addKeyColumns key = .ok t) ↔
      ((columns.map (·.name)).Nodup ∧ (∀ c ∈ columns, c.dataType = .char → 0 < c.charLength) ∧
        ∀ column ∈ key, ∃ c ∈ columns, c.name = column) ∧ t = keyed name columns key := by
  have hdistinct : Schema.Distinct (columns.map (·.attribute name)) ↔
      (columns.map (·.name)).Nodup := by
    rw [Schema.Distinct, List.map_map]
    rfl
  have hdefined (column : String) : (∃ a ∈ columns.map (·.attribute name), a.name = column) ↔
      ∃ c ∈ columns, c.name = column := by
    simp only [List.mem_map, exists_exists_and_eq_and]
    rfl
  have hkeyed : { blank name with
      schema := (columns.map (·.attribute name)).map fun a =>
        if a.name ∈ key then a.asPrimary else a
      primaryKey := (blank name).primaryKey ++
        (key.filter (· ∉ (blank name).primaryKey)).eraseDups } = keyed name columns key := by
    rw [← schema_keyed]
    simp [keyed, blank]
  constructor
  · rintro ⟨u, hcolumns, hkey⟩
    obtain ⟨⟨_, hnodup⟩, hpositive, rfl⟩ := addColumns_eq_ok_iff.mp hcolumns
    obtain ⟨hthere, rfl⟩ := (addKeyColumns_eq_ok_iff (hdistinct.mpr hnodup)).mp hkey
    exact ⟨⟨hnodup, hpositive, fun column hcolumn => (hdefined column).mp (hthere column hcolumn)⟩,
      hkeyed⟩
  · rintro ⟨⟨hnodup, hpositive, hkey⟩, rfl⟩
    refine ⟨_, addColumns_eq_ok_iff.mpr ⟨⟨by simp [blank], hnodup⟩, hpositive, rfl⟩, ?_⟩
    exact (addKeyColumns_eq_ok_iff (hdistinct.mpr hnodup)).mpr
      ⟨fun column hcolumn => (hdefined column).mpr (hkey column hcolumn), hkeyed.symm⟩

/-- A definition is accepted exactly if it keeps to the rules, and it makes the table that it
describes. -/
theorem define_eq_ok_iff
    (hread : ∀ n u, read n = .ok (some u) → u.name = n ∧ u.schema.Distinct) :
    (∃ entered, define name columns constraints read = .ok (t, entered)) ↔
      Definable read name columns constraints ∧ t = defined name columns constraints := by
  have hreferable {key : List String} : Referable read (keyed name columns key).schema constraints ↔
      Referable read (columns.map (·.attribute name)) constraints := by
    rw [schema_keyed]
    refine referable_map_iff (fun a => ?_) fun a b => ?_
    · split
      · rfl
      · rfl
    · split
      · rfl
      · rfl
  have hrest {u : Table} {key : List String} (hcolumns : (blank name).addColumns columns = .ok u)
      (hkey : u.addKeyColumns key = .ok (keyed name columns key)) :
      (∃ targets, addForeignKeys read constraints (keyed name columns key, []) =
        .ok (t, targets)) ↔ Referable read (columns.map (·.attribute name)) constraints ∧
          t = (keyed name columns key).withReferences constraints := by
    obtain ⟨ht, _, hnofks⟩ := addColumns_nascent (nascent_blank name) rfl rfl hcolumns
    obtain ⟨ht, hnofks⟩ := addKeyColumns_nascent ht hnofks hkey
    have hnone : Targets read (keyed name columns key) [] :=
      ⟨.nil, by simp, by simp, by simp [hnofks]⟩
    rw [addForeignKeys_eq_ok_iff hread ht hnone, hreferable]
  simp only [define]
  constructor
  · rintro ⟨entered, h⟩
    split at h
    · cases h
    · next hone =>
      simp only [bind_eq_ok_iff, Failure.lift_eq_ok_iff, pure_eq_ok_iff, Prod.mk.injEq] at h
      obtain ⟨u, hcolumns, v, hkey, ⟨w, targets⟩, hforeign, rfl, rfl⟩ := h
      obtain ⟨⟨hdifferent, hpositive, hdefined⟩, rfl⟩ := add_eq_ok_iff.mp ⟨u, hcolumns, hkey⟩
      obtain ⟨hreferable, rfl⟩ := (hrest hcolumns hkey).mp ⟨targets, hforeign⟩
      exact ⟨⟨Nat.not_lt.mp hone, hdifferent, hpositive, hdefined, hreferable⟩, rfl⟩
  · rintro ⟨h, rfl⟩
    obtain ⟨u, hcolumns, hkey⟩ :=
      add_eq_ok_iff.mpr ⟨⟨h.different, h.positive, h.key_defined⟩, rfl⟩
    obtain ⟨targets, hforeign⟩ := (hrest hcolumns hkey).mpr ⟨h.referable, rfl⟩
    rw [if_neg (Nat.not_lt.mpr h.one_key), hcolumns]
    refine ⟨targets.map (·.withReferrer name), ?_⟩
    simp only [Failure.lift_ok, bind, Except.bind, hkey, hforeign]
    rfl

/-- Each foreign key that a definition makes leads to a table that can be read. -/
theorem Definable.exists_target (h : Definable read name columns constraints) {fk : ForeignKey}
    (hfk : fk ∈ (defined name columns constraints).foreignKeys) :
    ∃ target, read fk.table = .ok (some target) := by
  obtain ⟨constraint, hconstraint, heq⟩ : ∃ constraint ∈ constraints,
      constraint.foreignKey? (keyed name columns (keyClauses columns constraints).flatten).schema =
        some fk := List.mem_filterMap.mp hfk
  cases constraint with
  | primaryKey _ => cases heq
  | foreignKey sources table references =>
    obtain rfl := Option.some.inj heq
    obtain ⟨target, htarget, _⟩ := h.referable _ _ _ hconstraint
    exact ⟨target, htarget⟩

end Table

end RelationalStore
