import RelationalStore.Proofs.Table.Definition

/-!
# Foreign keys that are accepted

Foreign keys are added to a table one by one. Each of them marks its columns, and its target is
taken out of a list of targets and put back at the end of it, or read if it is not there. But
marks are not looked at by later checks, and what is at hand is what would be read. So a list
of constraints is accepted exactly if each foreign key in it, taken for itself, leads to a table
that its columns suit.
-/

namespace RelationalStore

/-- The columns that a constraint pairs with those of another table. -/
def TableConstraint.references : TableConstraint → List (String × String × String)
  | primaryKey _ => []
  | foreignKey columns table references =>
    (columns.zip references).map fun pair => (pair.1, table, pair.2)

/-- The column with the last reference that the constraints give for it, if they give one. -/
def Attribute.markedBy (constraints : List TableConstraint) (a : Attribute) : Attribute :=
  { a with
    references := ((constraints.flatMap (·.references)).reverse.lookup a.name).or a.references }

/-- The foreign key of a constraint on a table of the given columns, if it is one. It admits
NULL if all its columns do. -/
def TableConstraint.foreignKey? (schema : Schema) : TableConstraint → Option ForeignKey
  | primaryKey _ => none
  | foreignKey columns table references => some
    { columns := columns
      table := table
      refColumns := references
      nullable := ∀ column ∈ columns, ∃ a ∈ schema, a.name = column ∧ a.nullable = true }

namespace Table

/-- Columns of the schema can reference columns of the target: the lists are equally long, each
column is there and is paired with a primary key column of its type, and the whole primary key
is referenced. -/
structure Suits (schema : Schema) (columns : List String) (target : Table)
    (references : List String) : Prop where
  pairs : List.Forall₂ (fun column reference => ∃ a ∈ schema, ∃ b ∈ target.schema,
    a.name = column ∧ b.name = reference ∧ b.primary = true ∧ a.sameType b = true)
    columns references
  whole : ∀ name, name ∈ references ↔ name ∈ target.primaryKey

/-- Each foreign key among the constraints leads to a table that is there and suits it. -/
def Referable (read : TableReader) (schema : Schema) (constraints : List TableConstraint) : Prop :=
  ∀ columns table references, .foreignKey columns table references ∈ constraints →
    ∃ target, read table = .ok (some target) ∧ Suits schema columns target references

/-- The table with the foreign keys among the constraints, for which its columns are marked. -/
def withReferences (t : Table) (constraints : List TableConstraint) : Table :=
  { t with
    schema := t.schema.map (·.markedBy constraints)
    foreignKeys := t.foreignKeys ++ constraints.filterMap (·.foreignKey? t.schema) }

variable {t t' target : Table} {read : TableReader} {name : String} {schema : Schema}
  {sources references : List String} {constraints : List TableConstraint}

/-- Pairs of columns pass the check exactly if each leads to a key column of its type. -/
theorem checkPairs_eq_ok_iff {pairs : List (Attribute × String)}
    (hdistinct : target.schema.Distinct) :
    checkPairs target pairs = .ok () ↔ ∀ pair ∈ pairs, ∃ b ∈ target.schema,
      b.name = pair.2 ∧ b.primary = true ∧ pair.1.sameType b = true := by
  induction pairs with
  | nil => simp [checkPairs]
  | cons pair rest ih =>
    obtain ⟨source, reference⟩ := pair
    rw [checkPairs, List.forall_mem_cons, ← ih]
    cases hb : target.attribute? reference with
    | none =>
      have hmissing : ¬ ∃ b ∈ target.schema, b.name = reference :=
        attribute?_isNone_iff.mp (by rw [hb]; rfl)
      refine iff_of_false (by simp) fun h => hmissing ?_
      obtain ⟨⟨b, hb, hname, _⟩, _⟩ := h
      exact ⟨b, hb, hname⟩
    | some b =>
      obtain ⟨hmem, hname⟩ := (attribute?_eq_some_iff hdistinct).mp hb
      have hfirst : (∃ b ∈ target.schema, b.name = reference ∧ b.primary = true ∧
          source.sameType b = true) ↔ b.primary = true ∧ source.sameType b = true := by
        constructor
        · rintro ⟨b', hb', hname', hfits⟩
          exact hdistinct.eq_of_name_eq hb' hmem (hname'.trans hname.symm) ▸ hfits
        · exact fun hfits => ⟨b, hmem, hname, hfits⟩
      rw [hfirst]
      by_cases hprimary : b.primary = true
      · by_cases htype : source.sameType b = true
        · simp [hprimary, htype]
        · simp [hprimary, htype]
      · simp [hprimary]

/-- Columns of a schema are found under their names. -/
theorem exists_definedColumns (h : ∀ column ∈ sources, ∃ a ∈ schema, a.name = column) :
    ∃ attributes, definedColumns schema sources = .ok attributes := by
  induction sources with
  | nil => exact ⟨[], rfl⟩
  | cons column rest ih =>
    rw [List.forall_mem_cons] at h
    obtain ⟨others, hothers⟩ := ih h.2
    unfold definedColumns
    cases ha : schema.find? (·.name == column) with
    | none =>
      obtain ⟨a, hmem, hname⟩ := h.1
      exact absurd hname (by simpa using List.find?_eq_none.mp ha a hmem)
    | some a => exact ⟨a :: others, by simp only [hothers]; rfl⟩

/-- The checks of a foreign key are passed exactly by columns that suit the target. -/
theorem fitForeignKey_eq_ok_iff (hdistinct : schema.Distinct)
    (htarget : target.schema.Distinct) {fk : ForeignKey} :
    fitForeignKey schema sources target references = .ok fk ↔
      Suits schema sources target references ∧ fk = ⟨sources, target.name, references, false⟩ := by
  unfold fitForeignKey
  constructor
  · intro h
    split at h
    · cases h
    · next hlength =>
      simp only [bind_eq_ok_iff] at h
      obtain ⟨attributes, hattributes, _, hchecked, h⟩ := h
      split at h
      · next hnames =>
        obtain rfl := Except.ok.inj h
        have hdefined := definedColumns_eq_ok hattributes
        have htyped : List.Forall₂ (fun a reference => ∃ b ∈ target.schema, b.name = reference ∧
            b.primary = true ∧ a.sameType b = true) attributes references :=
          List.forall₂_iff_zip.mpr ⟨hdefined.length_eq.symm.trans (not_not.mp hlength),
            fun hpair => (checkPairs_eq_ok_iff htarget).mp hchecked _ hpair⟩
        refine ⟨⟨hdefined.trans htyped ?_, sameNames_iff.mp hnames⟩, rfl⟩
        rintro column a reference ⟨ha, hname⟩ ⟨b, hb, hb', hfits⟩
        exact ⟨a, ha, b, hb, hname, hb', hfits⟩
      · cases h
  · rintro ⟨hsuits, rfl⟩
    have hnamed : ∀ column ∈ sources, ∃ a ∈ schema, a.name = column := by
      intro column hcolumn
      obtain ⟨_, _, a, ha, _, _, hname, _⟩ := hsuits.pairs.exists_right hcolumn
      exact ⟨a, ha, hname⟩
    obtain ⟨attributes, hattributes⟩ := exists_definedColumns hnamed
    have hpaired : List.Forall₂ (fun a reference => ∃ b ∈ target.schema, b.name = reference ∧
        b.primary = true ∧ a.sameType b = true) attributes references := by
      refine (definedColumns_eq_ok hattributes).flip.trans hsuits.pairs ?_
      rintro a column reference ⟨ha, hname⟩ ⟨a', ha', b, hb, hname', hb', hprimary, htype⟩
      obtain rfl := hdistinct.eq_of_name_eq ha' ha (hname'.trans hname.symm)
      exact ⟨b, hb, hb', hprimary, htype⟩
    have hchecked : checkPairs target (attributes.zip references) = .ok () :=
      (checkPairs_eq_ok_iff htarget).mpr fun pair hpair => List.forall₂_zip hpaired hpair
    rw [if_neg (not_not.mpr hsuits.pairs.length_eq)]
    refine bind_eq_ok_iff.mpr ⟨attributes, hattributes, ?_⟩
    exact bind_eq_ok_iff.mpr ⟨(), hchecked, if_pos (sameNames_iff.mpr hsuits.whole)⟩

/-- Whether columns suit a target depends on their names and types alone. -/
theorem suits_map_iff {f : Attribute → Attribute} (hname : ∀ a, (f a).name = a.name)
    (htype : ∀ a b, (f a).sameType b = a.sameType b) :
    Suits (schema.map f) sources target references ↔
      Suits schema sources target references := by
  have hpair (column reference : String) : (∃ a ∈ schema.map f, ∃ b ∈ target.schema,
      a.name = column ∧ b.name = reference ∧ b.primary = true ∧ a.sameType b = true) ↔
      ∃ a ∈ schema, ∃ b ∈ target.schema,
        a.name = column ∧ b.name = reference ∧ b.primary = true ∧ a.sameType b = true := by
    simp only [List.mem_map, exists_exists_and_eq_and, hname, htype]
  constructor
  · rintro ⟨hpairs, hwhole⟩
    exact ⟨hpairs.imp fun _ _ => (hpair _ _).mp, hwhole⟩
  · rintro ⟨hpairs, hwhole⟩
    exact ⟨hpairs.imp fun _ _ => (hpair _ _).mpr, hwhole⟩

/-- Whether foreign keys suit a schema depends on the names and the types of its columns alone. -/
theorem referable_map_iff {f : Attribute → Attribute} (hname : ∀ a, (f a).name = a.name)
    (htype : ∀ a b, (f a).sameType b = a.sameType b) :
    Referable read (schema.map f) constraints ↔ Referable read schema constraints := by
  simp only [Referable, suits_map_iff hname htype]

/-- Without constraints a column is not marked. -/
theorem markedBy_nil (a : Attribute) : a.markedBy [] = a := by
  simp [Attribute.markedBy]

/-- Of two references the later one is left. -/
theorem markedBy_cons (constraint : TableConstraint) (a : Attribute) :
    (a.markedBy [constraint]).markedBy constraints = a.markedBy (constraint :: constraints) := by
  simp only [Attribute.markedBy, List.flatMap_cons, List.flatMap_nil, List.append_nil,
    List.reverse_append, List.lookup_append, Option.or_assoc]

/-- Foreign keys are the same on columns that differ in their references alone. -/
theorem foreignKey?_map_markedBy (constraint : TableConstraint) :
    constraint.foreignKey? (schema.map (·.markedBy constraints)) =
      constraint.foreignKey? schema := by
  cases constraint with
  | primaryKey _ => rfl
  | foreignKey columns table references =>
    simp only [TableConstraint.foreignKey?, List.mem_map, exists_exists_and_eq_and]
    rfl

/-- Without constraints a table gets no foreign key. -/
theorem withReferences_nil : t.withReferences [] = t := by
  simp [withReferences, markedBy_nil]

/-- Foreign keys may be added one by one. -/
theorem withReferences_cons (constraint : TableConstraint) :
    (t.withReferences [constraint]).withReferences constraints =
      t.withReferences (constraint :: constraints) := by
  simp only [withReferences, List.map_map, Function.comp_def, markedBy_cons,
    foreignKey?_map_markedBy, List.append_assoc, ← List.filterMap_append, List.singleton_append]

/-- A primary key is no foreign key, and so it marks nothing. -/
theorem withReferences_of_primaryKey (names : List String) :
    t.withReferences [.primaryKey names] = t := by
  simp [withReferences, Attribute.markedBy, TableConstraint.references,
    TableConstraint.foreignKey?]

/-- Marking columns for foreign keys leaves their names distinct. -/
theorem distinct_withReferences (hdistinct : t.schema.Distinct) :
    (t.withReferences constraints).schema.Distinct := by
  rw [Schema.Distinct, withReferences, List.map_map]
  exact hdistinct

/-- Marking columns pair by pair leaves in each column its last reference. -/
theorem markReferences_eq_map {table : String} {pairs : List (String × String)}
    (hdistinct : t.schema.Distinct) : t.markReferences table pairs =
      { t with schema := t.schema.map fun a => { a with
          references := ((pairs.map fun pair => (pair.1, table, pair.2)).reverse.lookup a.name).or
            a.references } } := by
  induction pairs generalizing t with
  | nil => simp [markReferences]
  | cons pair rest ih =>
    obtain ⟨column, reference⟩ := pair
    have hmap := modifyAttribute_eq_map hdistinct column (·.referencing table reference)
    have hname (a : Attribute) :
        (if a.name = column then a.referencing table reference else a).name = a.name := by
      split
      · rfl
      · rfl
    have hmarked : Schema.Distinct
        (t.schema.map fun a => if a.name = column then a.referencing table reference else a) := by
      simpa only [Schema.Distinct, List.map_map, Function.comp_def, hname] using hdistinct
    simp only [markReferences, modifyAttribute, hmap]
    rw [ih hmarked]
    simp only [List.map_map, List.map_cons, List.reverse_cons, List.lookup_append]
    refine congrArg (fun schema => { t with schema := schema }) (List.map_congr_left fun a _ => ?_)
    by_cases ha : a.name = column
    · simp [ha, Attribute.referencing]
    · simp [ha, List.lookup_cons, beq_false_of_ne ha]

/-- With the columns of one foreign key marked, and the key itself, the table has its reference. -/
theorem markReferences_eq_withReferences {table : String} (hdistinct : t.schema.Distinct) :
    { t.markReferences table (sources.zip references) with
      foreignKeys := t.foreignKeys ++ [⟨sources, table, references,
        sources.all fun c => (((t.markReferences table (sources.zip references)).attribute?
          c).map (·.nullable)).getD false⟩] } =
      t.withReferences [.foreignKey sources table references] := by
  have hmarked : t.markReferences table (sources.zip references) = { t with
      schema := (t.withReferences [.foreignKey sources table references]).schema } := by
    rw [markReferences_eq_map hdistinct]
    simp only [withReferences, Attribute.markedBy, List.flatMap_singleton,
      TableConstraint.references]
  have hnullable : (sources.all fun c => (((t.markReferences table
      (sources.zip references)).attribute? c).map (·.nullable)).getD false) =
      decide (∀ column ∈ sources, ∃ a ∈ t.schema, a.name = column ∧ a.nullable = true) := by
    rw [hmarked, Bool.eq_iff_iff, List.all_eq_true, decide_eq_true_iff]
    refine forall₂_congr fun column _ => ?_
    refine (nullable_attribute?_iff (distinct_withReferences hdistinct)).trans ?_
    simp only [withReferences, List.mem_map, exists_exists_and_eq_and]
    rfl
  rw [hnullable, hmarked]
  rfl

/-- What is at hand under a name is what is read under it. -/
theorem Targets.of_takeNamed {targets others : List Table} {table : String}
    (h : Targets read t targets) (htaken : takeNamed table targets = some (target, others)) :
    read table = .ok (some target) := by
  obtain ⟨rfl, hperm⟩ := takeNamed_eq_some htaken
  exact h.stored target (hperm.subset List.mem_cons_self)

/-- A foreign key is added exactly if its columns suit the table that is read as its target. -/
theorem addForeignKey_eq_ok_iff {targets : List Table} {table : String}
    (hread : ∀ n u, read n = .ok (some u) → u.name = n ∧ u.schema.Distinct)
    (hdistinct : t.schema.Distinct) (htargets : Targets read t targets) :
    (∃ targets', t.addForeignKey targets sources table references read = .ok (t', targets')) ↔
      (∃ target, read table = .ok (some target) ∧ Suits t.schema sources target references) ∧
        t' = t.withReferences [.foreignKey sources table references] := by
  constructor
  · rintro ⟨targets', h⟩
    obtain ⟨u, others, _, hfound, fk, hfk, rfl⟩ := addForeignKey_eq_ok h
    have hu : read table = .ok (some u) := by
      rcases hfound with htaken | ⟨_, hu, _⟩
      · exact htargets.of_takeNamed htaken
      · exact hu
    obtain ⟨rfl, htarget⟩ := hread table u hu
    obtain ⟨hsuits, rfl⟩ := (fitForeignKey_eq_ok_iff hdistinct htarget).mp hfk
    exact ⟨⟨u, hu, hsuits⟩, markReferences_eq_withReferences hdistinct⟩
  · rintro ⟨⟨u, hu, hsuits⟩, rfl⟩
    obtain ⟨rfl, htarget⟩ := hread table u hu
    have hfk := (fitForeignKey_eq_ok_iff hdistinct htarget).mpr ⟨hsuits, rfl⟩
    rw [← markReferences_eq_withReferences hdistinct]
    unfold addForeignKey withForeignKey
    cases htaken : takeNamed u.name targets with
    | none => exact ⟨_, by simp only [hu, hfk, bind, Except.bind]; rfl⟩
    | some found =>
      obtain ⟨v, others⟩ := found
      obtain rfl := Option.some.inj (Except.ok.inj ((htargets.of_takeNamed htaken).symm.trans hu))
      exact ⟨_, by simp only [hfk, bind, Except.bind]; rfl⟩

/-- Foreign keys are added exactly if each of them leads to a table that suits it. -/
theorem addForeignKeys_eq_ok_iff {targets : List Table}
    (hread : ∀ n u, read n = .ok (some u) → u.name = n ∧ u.schema.Distinct)
    (ht : t.Nascent name) (htargets : Targets read t targets) :
    (∃ targets', addForeignKeys read constraints (t, targets) = .ok (t', targets')) ↔
      Referable read t.schema constraints ∧ t' = t.withReferences constraints := by
  induction constraints generalizing t targets with
  | nil => simp [addForeignKeys, Referable, withReferences_nil, eq_comm]
  | cons constraint rest ih =>
    cases constraint with
    | primaryKey names =>
      have hreferable : Referable read t.schema (.primaryKey names :: rest) ↔
          Referable read t.schema rest := by simp [Referable]
      rw [hreferable, ← withReferences_cons, withReferences_of_primaryKey]
      exact ih ht htargets
    | foreignKey sources table references =>
      have hreferable : Referable read t.schema (.foreignKey sources table references :: rest) ↔
          (∃ target, read table = .ok (some target) ∧
            Suits t.schema sources target references) ∧ Referable read t.schema rest := by
        constructor
        · intro h
          exact ⟨h _ _ _ List.mem_cons_self,
            fun _ _ _ hmem => h _ _ _ (List.mem_cons_of_mem _ hmem)⟩
        · rintro ⟨hfirst, hrest⟩ _ _ _ hmem
          rcases List.mem_cons.mp hmem with heq | hmem
          · cases heq
            exact hfirst
          · exact hrest _ _ _ hmem
      have hstep {t' : Table} := @addForeignKey_eq_ok_iff t t' read sources references targets table
        hread ht.sound.distinct htargets
      -- the columns are marked for the first key when the others are checked
      have hlater : Referable read (t.withReferences [.foreignKey sources table references]).schema
          rest ↔ Referable read t.schema rest := referable_map_iff (fun _ => rfl) fun _ _ => rfl
      have hnamed : ∀ n u, read n = .ok (some u) → u.name = n := fun n u hu => (hread n u hu).1
      rw [hreferable, ← withReferences_cons]
      constructor
      · rintro ⟨targets', h⟩
        obtain ⟨⟨t₁, targets₁⟩, hadd, hrest⟩ := bind_eq_ok_iff.mp h
        obtain ⟨ht₁, htargets₁⟩ := addForeignKey_nascent hnamed ht htargets hadd
        obtain ⟨hfirst, rfl⟩ := hstep.mp ⟨targets₁, hadd⟩
        obtain ⟨hreferable', rfl⟩ := (ih ht₁ htargets₁).mp ⟨targets', hrest⟩
        exact ⟨⟨hfirst, hlater.mp hreferable'⟩, rfl⟩
      · rintro ⟨⟨hfirst, hreferable'⟩, rfl⟩
        obtain ⟨targets₁, hadd⟩ := hstep.mpr ⟨hfirst, rfl⟩
        obtain ⟨ht₁, htargets₁⟩ := addForeignKey_nascent hnamed ht htargets hadd
        obtain ⟨targets', hrest⟩ :=
          (ih ht₁ htargets₁).mpr ⟨hlater.mpr hreferable', rfl⟩
        exact ⟨targets', bind_eq_ok_iff.mpr ⟨_, hadd, hrest⟩⟩

end Table

end RelationalStore
