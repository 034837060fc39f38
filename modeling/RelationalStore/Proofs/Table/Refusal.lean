import RelationalStore.Proofs.Table.Insertion
import RelationalStore.Proofs.Table.Lookup
import RelationalStore.Proofs.Table.Reading

/-!
# What insertions and definitions are refused for

A definition is refused only for what it says about its own columns and about the tables
that it references. An insertion is refused only for its row: for a sound table whose
foreign keys fit sound targets, the lookups by which the row is checked cannot fail
themselves, as the row has passed the checks of its columns before.
-/

namespace RelationalStore

/-- The cause is found in the values that are given, without a look at any row that is kept. -/
def Error.IsOfValues : Error → Prop
  | insertType _ | insertColumn _ | insertNull _ => True
  | _ => False

/-- An error about values is one about an insertion. -/
theorem Error.IsOfValues.topic_eq {e : Error} (h : e.IsOfValues) : e.topic = .insertion := by
  cases e with
  | insertType _ | insertColumn _ | insertNull _ => rfl
  | _ => cases h

namespace Table

variable {t : Table} {row : Row} {read : TableReader}

/-- The check of a value passes or complains about the value. -/
theorem checkValue_failsOnly (a : Attribute) (v : Value) :
    FailsOnly Error.IsOfValues (a.checkValue v) := by
  unfold Attribute.checkValue
  split
  · split
    · exact .ok ()
    · exact .error trivial
  · split
    · split
      · split
        · exact .ok ()
        · exact .error trivial
      · exact .ok ()
    · exact .error trivial

/-- The check of a row passes or complains about one of its values. -/
theorem checkValues_failsOnly (schema : Schema) (row : Row) :
    FailsOnly Error.IsOfValues (checkValues schema row) := by
  induction schema generalizing row with
  | nil => exact .ok ()
  | cons a schema ih =>
    cases row with
    | nil => exact .ok ()
    | cons v row => exact (checkValue_failsOnly a v).bind fun _ _ => ih row

/-- Laying out the values that are given succeeds or complains about them. -/
theorem givenRow_failsOnly (t : Table) (columns : Option (List String)) (values : List Value) :
    FailsOnly Error.IsOfValues (t.givenRow columns values) := by
  cases columns with
  | none =>
    unfold givenRow
    dsimp only
    split
    · exact .ok values
    · exact .error trivial
  | some names =>
    unfold givenRow
    dsimp only
    split
    · exact .error trivial
    · split
      · exact .error trivial
      · split
        · exact .error trivial
        · exact .ok _

/-- Building a row succeeds or complains about the values that are given. -/
theorem buildRow_failsOnly (t : Table) (columns : Option (List String)) (values : List Value) :
    FailsOnly Error.IsOfValues (t.buildRow columns values) :=
  (givenRow_failsOnly t columns values).bind fun row _ =>
    (checkValues_failsOnly t.schema row).bind fun _ _ => .ok row

/-- Rows can be looked up by the primary key of a row that fits the columns. -/
theorem Sound.exists_matching_key (ht : t.Sound) (hadmits : t.schema.Admits row) {key : Cells}
    (hkey : t.cells row t.primaryKey = .ok key) :
    ∃ entries, Condition.matching (Condition.conjunction key) t.schema t.rows = .ok entries := by
  have htypes : t.schema.SameTypes t.schema t.primaryKey t.primaryKey := by
    refine List.forall₂_same.mpr fun column hcolumn => ?_
    obtain ⟨a, ha, hname⟩ := ht.key_defined column hcolumn
    exact ⟨a, ha, a, ha, hname, hname, by simp [Attribute.sameType]⟩
  refine Condition.exists_matching_conjunction ht.distinct fun r hr => ?_
  have hzip := comparableIn_zip_cells hkey htypes hadmits (ht.admits r hr) ht.distinct ht.distinct
  rwa [zip_cells hkey] at hzip

/-- The check of the primary key of a row that fits the columns finds a duplicate or passes. -/
theorem checkPrimaryKey_failsOnly (ht : t.Sound) (hadmits : t.schema.Admits row) :
    FailsOnly (· = .insertDuplicateKey) (t.checkPrimaryKey row) := by
  obtain ⟨key, hkey⟩ := exists_cells hadmits ht.key_defined
  obtain ⟨taken, htaken⟩ := ht.exists_matching_key hadmits hkey
  refine FailsOnly.bind_ok hkey ?_
  cases hcondition : Condition.conjunction key with
  | none => exact .ok ()
  | some condition =>
    rw [hcondition] at htaken
    refine FailsOnly.bind_ok htaken ?_
    split
    · exact .ok ()
    · exact .error rfl

/-- It can be told whether a reference of a row that fits the columns is NULL. -/
theorem exists_hasNullReference (hadmits : t.schema.Admits row) {fks : List ForeignKey}
    (hcolumns : ∀ fk ∈ fks, ∀ column ∈ fk.columns, ∃ a ∈ t.schema, a.name = column) :
    ∃ answer, t.hasNullReference row fks = .ok answer := by
  induction fks with
  | nil => exact ⟨false, rfl⟩
  | cons fk fks ih =>
    rw [List.forall_mem_cons] at hcolumns
    obtain ⟨cells, hcells⟩ := exists_cells hadmits hcolumns.1
    rw [hasNullReference, hcells]
    by_cases hnull : cells.any (·.2.isNull) = true
    · exact ⟨true, if_pos hnull⟩
    · obtain ⟨answer, hanswer⟩ := ih hcolumns.2
      exact ⟨answer, (if_neg hnull).trans hanswer⟩

/-- The foreign keys lead to sound tables, which they fit. -/
def Directed (t : Table) (read : TableReader) (fks : List ForeignKey) : Prop :=
  ∀ fk ∈ fks, ∃ target, read fk.table = .ok (some target) ∧ target.Sound ∧
    fk.Fits t.schema target

/-- The columns of foreign keys that lead somewhere are those of the table. -/
theorem Directed.exists_attribute {fks : List ForeignKey} (h : t.Directed read fks) :
    ∀ fk ∈ fks, ∀ column ∈ fk.columns, ∃ a ∈ t.schema, a.name = column := by
  intro fk hfk column hcolumn
  obtain ⟨_, _, _, hfits⟩ := h fk hfk
  exact hfits.exists_attribute hcolumn

/-- The check of the references of a row that fits the columns misses a target or passes. -/
theorem checkTargets_failsOnly (ht : t.Sound) (hadmits : t.schema.Admits row)
    {fks : List ForeignKey} (hfks : t.Directed read fks) :
    FailsOnly (fun f => ∃ table, f = .error (.insertReference table))
      (t.checkTargets row read fks) := by
  induction fks with
  | nil => exact .ok ()
  | cons fk fks ih =>
    obtain ⟨⟨target, hread, htarget, hfits⟩, hfks⟩ := List.forall_mem_cons.mp hfks
    obtain ⟨cells, hcells⟩ := exists_cells hadmits fun _ => hfits.exists_attribute
    obtain ⟨found, hfound⟩ := hfits.exists_targetRows ht htarget hadmits hcells
    refine FailsOnly.bind_ok hread ?_
    have hcheck : FailsOnly (fun e => ∃ table, e = .insertReference table)
        (t.checkTarget row fk target) := by
      refine FailsOnly.bind_ok hcells (FailsOnly.bind_ok hfound ?_)
      split
      · exact .error ⟨_, rfl⟩
      · exact .ok ()
    have hlifted : FailsOnly (fun f => ∃ table, f = .error (.insertReference table))
        (Failure.lift (t.checkTarget row fk target)) :=
      FailsOnly.lift (hcheck.mono fun e he => he.imp fun _ => congrArg Failure.error)
    exact hlifted.bind fun _ _ => ih hfks

/-- The check of all references of a row that fits the columns does so too. -/
theorem checkForeignKeys_failsOnly (ht : t.Sound) (hadmits : t.schema.Admits row)
    (hdirected : t.Directed read t.foreignKeys) :
    FailsOnly (fun f => ∃ table, f = .error (.insertReference table))
      (t.checkForeignKeys row read) := by
  obtain ⟨waived, hwaived⟩ := exists_hasNullReference hadmits hdirected.exists_attribute
  refine FailsOnly.bind_ok (Failure.lift_eq_ok_iff.mpr hwaived) ?_
  split
  · exact .ok ()
  · exact checkTargets_failsOnly ht hadmits hdirected

/-- An insertion into a sound table is refused for its row and nothing else. -/
theorem insert_failsOnly (ht : t.Sound) (hdirected : t.Directed read t.foreignKeys)
    (columns : Option (List String)) (values : List Value) :
    FailsOnly (Failure.About .insertion) (t.insert columns values read) := by
  have hbuild := (buildRow_failsOnly t columns values).mono fun _ he => he.topic_eq
  refine hbuild.about.bind fun row hrow => ?_
  have hadmits := admits_of_buildRow (Failure.lift_eq_ok_iff.mp hrow)
  have hkey : FailsOnly (fun e => e.topic = .insertion) (t.checkPrimaryKey row) := by
    refine (checkPrimaryKey_failsOnly ht hadmits).mono ?_
    rintro _ rfl
    rfl
  have hforeign : FailsOnly (Failure.About .insertion) (t.checkForeignKeys row read) := by
    refine (checkForeignKeys_failsOnly ht hadmits hdirected).mono ?_
    rintro _ ⟨table, rfl⟩
    exact ⟨_, rfl, rfl⟩
  exact hkey.about.bind fun _ _ => hforeign.bind fun _ _ => .ok _

/-- Columns are added, or the definition is refused. -/
theorem addColumns_failsOnly (t : Table) (columns : List ColumnDefinition) :
    FailsOnly (fun e => e.topic = .definition) (t.addColumns columns) := by
  induction columns generalizing t with
  | nil => exact .ok t
  | cons c rest ih =>
    unfold addColumns
    split
    · exact .error rfl
    · split
      · exact .error rfl
      · exact ih _

/-- A primary key is added, or the definition is refused. -/
theorem addKeyColumns_failsOnly (t : Table) (names : List String) :
    FailsOnly (fun e => e.topic = .definition) (t.addKeyColumns names) := by
  induction names generalizing t with
  | nil => exact .ok t
  | cons name rest ih =>
    unfold addKeyColumns
    split
    · exact .error rfl
    · exact ih _

/-- The columns of a constraint are found, or the definition is refused. -/
theorem definedColumns_failsOnly (schema : Schema) (names : List String) :
    FailsOnly (fun e => e.topic = .definition) (definedColumns schema names) := by
  induction names with
  | nil => exact .ok []
  | cons name rest ih =>
    unfold definedColumns
    split
    · exact .error rfl
    · exact ih.bind fun others _ => .ok _

/-- The columns of a foreign key match those that they reference, or the definition is refused. -/
theorem checkPairs_failsOnly (target : Table) (pairs : List (Attribute × String)) :
    FailsOnly (fun e => e.topic = .definition) (checkPairs target pairs) := by
  induction pairs with
  | nil => exact .ok ()
  | cons pair rest ih =>
    unfold checkPairs
    split
    · exact .error rfl
    · split
      · exact .error rfl
      · split
        · exact .error rfl
        · exact ih

/-- A foreign key fits its target, or the definition is refused. -/
theorem fitForeignKey_failsOnly (schema : Schema) (columns : List String) (target : Table)
    (references : List String) :
    FailsOnly (fun e => e.topic = .definition)
      (fitForeignKey schema columns target references) := by
  unfold fitForeignKey
  split
  · exact .error rfl
  · refine (definedColumns_failsOnly schema columns).bind fun sources _ => ?_
    refine (checkPairs_failsOnly target _).bind fun _ _ => ?_
    split
    · exact .ok _
    · exact .error rfl

/-- A foreign key to a table that has been found is added, or the definition is refused. -/
theorem withForeignKey_failsOnly (t target : Table) (columns references : List String) :
    FailsOnly (fun e => e.topic = .definition) (t.withForeignKey target columns references) :=
  (fitForeignKey_failsOnly t.schema columns target references).bind fun _ _ => .ok _

/-- If everything can be read, a foreign key is added, or the definition is refused. -/
theorem addForeignKey_failsOnly (hread : ∀ name, ∃ t?, read name = .ok t?) (t : Table)
    (targets : List Table) (columns : List String) (table : String) (references : List String) :
    FailsOnly (Failure.About .definition)
      (t.addForeignKey targets columns table references read) := by
  unfold addForeignKey
  split
  · exact (withForeignKey_failsOnly _ _ _ _).about.bind fun _ _ => .ok _
  · obtain ⟨target?, htarget?⟩ := hread table
    refine FailsOnly.bind_ok htarget? ?_
    cases target? with
    | none => exact .error ⟨_, rfl, rfl⟩
    | some target => exact (withForeignKey_failsOnly _ _ _ _).about.bind fun _ _ => .ok _

/-- If everything can be read, all foreign keys are added, or the definition is refused. -/
theorem addForeignKeys_failsOnly (hread : ∀ name, ∃ t?, read name = .ok t?)
    (constraints : List TableConstraint) (state : Table × List Table) :
    FailsOnly (Failure.About .definition) (addForeignKeys read constraints state) := by
  induction constraints generalizing state with
  | nil => exact .ok state
  | cons constraint rest ih =>
    obtain ⟨t, targets⟩ := state
    cases constraint with
    | primaryKey names => exact ih (t, targets)
    | foreignKey columns table references =>
      exact (addForeignKey_failsOnly hread t targets columns table references).bind
        fun state' _ => ih state'

/-- A definition is refused for what it says about columns, keys and referenced tables. -/
theorem define_failsOnly (hread : ∀ name, ∃ t?, read name = .ok t?) (name : String)
    (columns : List ColumnDefinition) (constraints : List TableConstraint) :
    FailsOnly (Failure.About .definition) (define name columns constraints read) := by
  unfold define
  dsimp only
  split
  · exact .error ⟨_, rfl, rfl⟩
  · refine (addColumns_failsOnly _ columns).about.bind fun withColumns _ => ?_
    refine (addKeyColumns_failsOnly withColumns _).about.bind fun withKey _ => ?_
    exact (addForeignKeys_failsOnly hread constraints _).bind fun _ _ => .ok _

end Table

end RelationalStore
