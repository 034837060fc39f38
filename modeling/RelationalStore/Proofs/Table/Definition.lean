import Mathlib.Data.List.Perm.Basic
import RelationalStore.Proofs.Table.Nascent
import RelationalStore.Proofs.Table.Reading

/-!
# What a definition makes

The last step of a definition pairs columns with those of other tables. After each foreign
key the targets so far are at hand, each of them once, and every key fits its target. At
the end the table is sound as a whole.
-/

namespace RelationalStore

/-- A schema whose columns differ from those of another one in their references alone. -/
def Schema.Rereferenced (schema schema' : Schema) : Prop :=
  List.Forall₂ (fun a a' => a' = { a with references := a'.references }) schema schema'

namespace Schema.Rereferenced

variable {schema schema' schema'' : Schema}

/-- A schema differs from itself in no reference. -/
theorem refl (schema : Schema) : schema.Rereferenced schema :=
  List.forall₂_same.mpr fun _ _ => rfl

/-- Two changes of references are one. -/
theorem trans (h : schema.Rereferenced schema') (h' : schema'.Rereferenced schema'') :
    schema.Rereferenced schema'' :=
  List.Forall₂.trans h h' fun a b c hb hc => by rw [hc, hb]

/-- A change of references leaves the names of the columns. -/
theorem names_eq (h : schema.Rereferenced schema') :
    schema'.map (·.name) = schema.map (·.name) := by
  induction h with
  | nil => rfl
  | cons hfirst _ ih => rw [List.map_cons, List.map_cons, ih, hfirst]

/-- A change of references leaves the names of the columns distinct. -/
theorem distinct (h : schema.Rereferenced schema') (hdistinct : schema.Distinct) :
    schema'.Distinct := by
  rw [Distinct, h.names_eq]
  exact hdistinct

/-- A property of columns that does not look at their references is found in both. -/
theorem exists_iff (h : schema.Rereferenced schema') {P : Attribute → Prop}
    (hP : ∀ a references, P { a with references := references } ↔ P a) :
    (∃ a ∈ schema', P a) ↔ ∃ a ∈ schema, P a := by
  constructor
  · rintro ⟨a', ha', hPa'⟩
    obtain ⟨a, ha, heq⟩ := h.exists_left ha'
    refine ⟨a, ha, (hP a a'.references).mp ?_⟩
    rwa [← heq]
  · rintro ⟨a, ha, hPa⟩
    obtain ⟨a', ha', heq⟩ := h.exists_right ha
    exact ⟨a', ha', heq ▸ (hP a a'.references).mpr hPa⟩

/-- A foreign key fits its target whatever its columns reference. -/
theorem fits (h : schema.Rereferenced schema') {fk : ForeignKey} {target : Table}
    (hfits : fk.Fits schema target) : fk.Fits schema' target :=
  ⟨hfits.covers, hfits.pairs.imp fun _ _ hpair => (h.exists_iff fun _ _ => Iff.rfl).mpr hpair⟩

end Schema.Rereferenced

namespace Table

variable {t t' target : Table}

/-- Marking the source columns of a foreign key changes their references alone. -/
theorem markReferences_eq {table : String} {pairs : List (String × String)}
    (hdistinct : t.schema.Distinct) :
    t.schema.Rereferenced (t.markReferences table pairs).schema ∧
      t.markReferences table pairs =
        { t with schema := (t.markReferences table pairs).schema } := by
  induction pairs generalizing t with
  | nil => exact ⟨.refl _, rfl⟩
  | cons pair pairs ih =>
    obtain ⟨column, reference⟩ := pair
    have hfirst : t.schema.Rereferenced
        (t.modifyAttribute column (·.referencing table reference)).schema := by
      simp only [modifyAttribute, modifyAttribute_eq_map hdistinct]
      rw [Schema.Rereferenced, List.forall₂_map_right_iff]
      refine List.forall₂_same.mpr fun a _ => ?_
      split
      · rfl
      · rfl
    obtain ⟨hrest, heq⟩ := ih (hfirst.distinct hdistinct)
    refine ⟨hfirst.trans hrest, ?_⟩
    simp only [markReferences]
    rw [heq]
    rfl

/-- Moving the last item to an earlier place is taking out the item of that place. -/
theorem dropLast_set_perm {tables : List Table} {i : Nat} {last : Table}
    (hi : i < tables.length) (hlast : tables.getLast? = some last) :
    (tables.set i last).dropLast.Perm (tables.eraseIdx i) := by
  have hset : (tables.set i last).getLast? = some last := by
    rw [List.getLast?_eq_getElem?] at hlast ⊢
    rw [List.length_set, List.getElem?_set]
    split
    · simp
    · exact hlast
  refine (List.perm_cons last).mp ((List.perm_append_singleton _ _).symm.trans ?_)
  rw [List.dropLast_append_getLast? last hset]
  exact List.set_perm_cons_eraseIdx hi last

/-- Taking a table out of a list by its name leaves the others, in some order. -/
theorem takeNamed_eq_some {name : String} {tables rest : List Table}
    (h : takeNamed name tables = some (t, rest)) : t.name = name ∧ (t :: rest).Perm tables := by
  unfold takeNamed at h
  split at h
  · cases h
  · next i hi =>
    obtain ⟨hlt, hname, _⟩ := List.findIdx?_eq_some_iff_getElem.mp hi
    split at h
    · next found last hfound hlast =>
      simp only [Option.some.injEq, Prod.mk.injEq] at h
      obtain ⟨rfl, rfl⟩ := h
      obtain ⟨_, rfl⟩ := List.getElem?_eq_some_iff.mp hfound
      refine ⟨by simpa using hname, ?_⟩
      exact ((dropLast_set_perm hlt hlast).cons _).trans (List.getElem_cons_eraseIdx_perm hlt)
    · cases h

/-- A name under which no table can be taken is that of none of them. -/
theorem ne_of_takeNamed_eq_none {name : String} {tables : List Table}
    (h : takeNamed name tables = none) : ∀ u ∈ tables, u.name ≠ name := by
  unfold takeNamed at h
  split at h
  · next hnone => simpa using List.findIdx?_eq_none_iff.mp hnone
  · next i hi =>
    -- the name is found, so there is a table to take and a last one to put in its place
    obtain ⟨hlt, _⟩ := List.findIdx?_eq_some_iff_getElem.mp hi
    split at h
    · cases h
    · next hnot =>
      have hne : tables ≠ [] := List.ne_nil_of_length_pos (Nat.lt_of_le_of_lt (Nat.zero_le i) hlt)
      exact (hnot _ _ (List.getElem?_eq_getElem hlt) (List.getLast?_eq_some_getLast hne)).elim

/-- The columns that a constraint names are columns of the schema, in the order of the names. -/
theorem definedColumns_eq_ok {schema columns : Schema} {names : List String}
    (h : definedColumns schema names = .ok columns) :
    List.Forall₂ (fun name a => a ∈ schema ∧ a.name = name) names columns := by
  induction names generalizing columns with
  | nil => exact Except.ok.inj h ▸ .nil
  | cons name names ih =>
    simp only [definedColumns] at h
    split at h
    · cases h
    · next a ha =>
      simp only [bind_eq_ok_iff, pure_eq_ok_iff] at h
      obtain ⟨others, hothers, rfl⟩ := h
      have hname : a.name = name := by simpa using List.find?_some ha
      exact .cons ⟨List.mem_of_find?_eq_some ha, hname⟩ (ih hothers)

/-- Pairs that pass the check are of columns of the target that have the same type. -/
theorem checkPairs_eq_ok {pairs : List (Attribute × String)}
    (h : checkPairs target pairs = .ok ()) :
    ∀ p ∈ pairs, ∃ b ∈ target.schema, b.name = p.2 ∧ p.1.sameType b = true := by
  induction pairs with
  | nil => simp
  | cons pair pairs ih =>
    obtain ⟨source, reference⟩ := pair
    simp only [checkPairs] at h
    split at h
    · cases h
    · next b hb =>
      split at h
      · cases h
      · split at h
        · cases h
        · next htype =>
          have hname : b.name = reference := by simpa using List.find?_some hb
          refine List.forall_mem_cons.mpr ⟨⟨b, List.mem_of_find?_eq_some hb, hname, ?_⟩, ih h⟩
          simpa using htype

/-- Two lists have the same names exactly if each name of one is in the other. -/
theorem sameNames_iff {names names' : List String} :
    sameNames names names' = true ↔ ∀ name, name ∈ names ↔ name ∈ names' := by
  simp only [sameNames, Bool.and_eq_true, List.all_eq_true, List.contains_iff_mem]
  exact ⟨fun ⟨h, h'⟩ name => ⟨h name, h' name⟩, fun h => ⟨fun n => (h n).mp, fun n => (h n).mpr⟩⟩

/-- A foreign key that passes the checks fits its target. -/
theorem fitForeignKey_eq_ok {schema : Schema} {columns references : List String}
    {fk : ForeignKey} (h : fitForeignKey schema columns target references = .ok fk) :
    fk = ⟨columns, target.name, references, false⟩ ∧ fk.Fits schema target := by
  unfold fitForeignKey at h
  split at h
  · cases h
  · next hlength =>
    simp only [bind_eq_ok_iff] at h
    obtain ⟨sources, hsources, _, hpairs, h⟩ := h
    split at h
    · next hnames =>
      obtain rfl := Except.ok.inj h
      have hdefined := definedColumns_eq_ok hsources
      have hchecked := checkPairs_eq_ok hpairs
      refine ⟨rfl, sameNames_iff.mp hnames, ?_⟩
      have htyped : List.Forall₂ (fun a reference => ∃ b ∈ target.schema,
          b.name = reference ∧ a.sameType b = true) sources references :=
        List.forall₂_iff_zip.mpr ⟨hdefined.length_eq.symm.trans (not_not.mp hlength),
          fun hpair => hchecked _ hpair⟩
      exact hdefined.trans htyped fun _ a _ ha ⟨b, hb, hname, htype⟩ =>
        ⟨a, ha.1, b, hb, ha.2, hname, htype⟩
    · cases h

/-- Adding a foreign key finds its target at hand or reads it, and marks the columns. -/
theorem addForeignKey_eq_ok {table : String} {read : TableReader}
    {targets targets' : List Table} {columns references : List String}
    (h : t.addForeignKey targets columns table references read = .ok (t', targets')) :
    ∃ target others, targets' = others ++ [target] ∧
      (takeNamed table targets = some (target, others) ∨
        takeNamed table targets = none ∧ read table = .ok (some target) ∧ others = targets) ∧
      ∃ fk, fitForeignKey t.schema columns target references = .ok fk ∧
        let marked := t.markReferences target.name (fk.columns.zip fk.refColumns)
        let nullable := fk.columns.all fun c => ((marked.attribute? c).map (·.nullable)).getD false
        t' = { marked with
          foreignKeys := t.foreignKeys ++ [{ fk with nullable := nullable }] } := by
  simp only [addForeignKey, withForeignKey] at h
  split at h
  · next found htaken =>
    simp only [bind_eq_ok_iff, Failure.lift_eq_ok_iff, pure_eq_ok_iff, Prod.mk.injEq,
      Except.ok.injEq] at h
    obtain ⟨_, rfl, _, ⟨fk, hfk, rfl⟩, rfl, rfl⟩ := h
    exact ⟨_, _, rfl, .inl htaken, fk, hfk, rfl⟩
  · next htaken =>
    simp only [bind_eq_ok_iff] at h
    obtain ⟨target?, htarget, h⟩ := h
    split at h
    · next target =>
      simp only [bind_eq_ok_iff, Failure.lift_eq_ok_iff, pure_eq_ok_iff, Prod.mk.injEq,
        Except.ok.injEq] at h
      obtain ⟨_, rfl, _, ⟨fk, hfk, rfl⟩, rfl, rfl⟩ := h
      exact ⟨_, _, rfl, .inr ⟨htaken, htarget, rfl⟩, fk, hfk, rfl⟩
    · cases h

/-- The targets of the foreign keys that a table has so far are at hand, each of them once,
and they are what is read under their names. -/
structure Targets (read : TableReader) (t : Table) (targets : List Table) : Prop where
  different : (targets.map (·.name)).Nodup
  stored : ∀ u ∈ targets, read u.name = .ok (some u)
  referenced : ∀ u ∈ targets, ∃ fk ∈ t.foreignKeys, fk.table = u.name
  fits : ∀ fk ∈ t.foreignKeys, ∃ u ∈ targets, u.name = fk.table ∧ fk.Fits t.schema u

/-- The target that is found at hand or read joins the others as one that is stored. -/
theorem Targets.found {read : TableReader} {targets others : List Table} {table : String}
    (htargets : Targets read t targets) (hread : ∀ n u, read n = .ok (some u) → u.name = n)
    (h : takeNamed table targets = some (target, others) ∨
      takeNamed table targets = none ∧ read table = .ok (some target) ∧ others = targets) :
    read target.name = .ok (some target) ∧ ((others ++ [target]).map (·.name)).Nodup ∧
      (∀ u ∈ others, u ∈ targets) ∧ ∀ u ∈ targets, u ∈ others ++ [target] := by
  rcases h with htaken | ⟨htaken, htarget, rfl⟩
  · obtain ⟨hname, hperm⟩ := takeNamed_eq_some htaken
    have hback := (List.perm_append_singleton target others).trans hperm
    refine ⟨htargets.stored target (hperm.subset List.mem_cons_self), ?_, ?_, ?_⟩
    · exact (hback.map _).nodup_iff.mpr htargets.different
    · exact fun u hu => hperm.subset (List.mem_cons_of_mem _ hu)
    · exact fun u hu => hback.symm.subset hu
  · obtain rfl := hread _ _ htarget
    refine ⟨htarget, ?_, fun _ hu => hu, fun _ hu => List.mem_append_left _ hu⟩
    rw [((List.perm_append_singleton target others).map _).nodup_iff, List.map_cons,
      List.nodup_cons]
    refine ⟨fun hmem => ?_, htargets.different⟩
    obtain ⟨u, hu, heq⟩ := List.mem_map.mp hmem
    exact ne_of_takeNamed_eq_none htaken u hu heq

/-- A table that is being defined stays so with one more foreign key. -/
theorem Nascent.addReference {name : String} (ht : t.Nascent name) {fk : ForeignKey}
    {schema : Schema} (hschema : t.schema.Rereferenced schema)
    (hnullable : fk.nullable = true ↔
      ∀ column ∈ fk.columns, ∃ a ∈ schema, a.name = column ∧ a.nullable = true) :
    ({ t with schema := schema, foreignKeys := t.foreignKeys ++ [fk] } : Table).Nascent name := by
  have hdistinct := hschema.distinct ht.sound.distinct
  refine ⟨ht.name_eq, ht.rows_eq, ht.referencedBy_eq,
    sound_of_rows_eq_nil ht.rows_eq hdistinct ?_ ?_ ?_ ?_⟩
  · intro a' ha'
    obtain ⟨a, ha, heq⟩ := hschema.exists_left ha'
    rw [heq]
    exact ht.sound.primary_iff a ha
  · intro key hkey
    exact (hschema.exists_iff fun _ _ => Iff.rfl).mpr (ht.sound.key_defined key hkey)
  · intro a' ha' hkey
    obtain ⟨a, ha, heq⟩ := hschema.exists_left ha'
    rw [heq] at hkey ⊢
    exact ht.sound.key_required a ha hkey
  · intro f hf
    rcases List.mem_append.mp hf with hf | hf
    · simp only [ht.sound.nullable_iff f hf]
      exact forall₂_congr fun _ _ => (hschema.exists_iff fun _ _ => Iff.rfl).symm
    · rw [List.mem_singleton.mp hf]
      exact hnullable

/-- Adding a foreign key keeps its target at hand together with the earlier ones. -/
theorem addForeignKey_nascent {name table : String} {read : TableReader}
    {targets targets' : List Table} {columns references : List String}
    (hread : ∀ n u, read n = .ok (some u) → u.name = n) (ht : t.Nascent name)
    (htargets : Targets read t targets)
    (h : t.addForeignKey targets columns table references read = .ok (t', targets')) :
    t'.Nascent name ∧ Targets read t' targets' := by
  obtain ⟨target, others, rfl, hfound, fk, hfk, rfl⟩ := addForeignKey_eq_ok h
  obtain ⟨hstored, hdifferent, hsubset, hsuperset⟩ := htargets.found hread hfound
  obtain ⟨rfl, hfits⟩ := fitForeignKey_eq_ok hfk
  obtain ⟨hschema, hmarked⟩ :=
    @markReferences_eq t target.name (columns.zip references) ht.sound.distinct
  have hdistinct := hschema.distinct ht.sound.distinct
  rw [hmarked]
  refine ⟨ht.addReference hschema ?_, hdifferent, ?_, ?_, ?_⟩
  · simp only [List.all_eq_true]
    refine forall₂_congr fun column _ => ?_
    rw [← hmarked]
    exact nullable_attribute?_iff hdistinct
  · intro u hu
    rcases List.mem_append.mp hu with hu | hu
    · exact htargets.stored u (hsubset u hu)
    · exact List.mem_singleton.mp hu ▸ hstored
  · intro u hu
    rcases List.mem_append.mp hu with hu | hu
    · obtain ⟨f, hf, hname⟩ := htargets.referenced u (hsubset u hu)
      exact ⟨f, List.mem_append_left _ hf, hname⟩
    · rw [List.mem_singleton.mp hu]
      exact ⟨_, List.mem_append_right _ List.mem_cons_self, rfl⟩
  · intro f hf
    rcases List.mem_append.mp hf with hf | hf
    · obtain ⟨u, hu, hname, hfitsf⟩ := htargets.fits f hf
      exact ⟨u, hsuperset u hu, hname, hschema.fits hfitsf⟩
    · rw [List.mem_singleton.mp hf]
      refine ⟨target, List.mem_append_right _ List.mem_cons_self, rfl, hschema.fits ?_⟩
      exact ⟨hfits.covers, hfits.pairs⟩

/-- A table stays nascent when foreign keys are added, and their targets are at hand. -/
theorem addForeignKeys_nascent {name : String} {read : TableReader}
    {constraints : List TableConstraint} {targets targets' : List Table}
    (hread : ∀ n u, read n = .ok (some u) → u.name = n) (ht : t.Nascent name)
    (htargets : Targets read t targets)
    (h : addForeignKeys read constraints (t, targets) = .ok (t', targets')) :
    t'.Nascent name ∧ Targets read t' targets' := by
  induction constraints generalizing t targets with
  | nil =>
    obtain ⟨rfl, rfl⟩ := Prod.mk.inj (Except.ok.inj h)
    exact ⟨ht, htargets⟩
  | cons constraint constraints ih =>
    cases constraint with
    | primaryKey _ => exact ih ht htargets h
    | foreignKey columns table references =>
      obtain ⟨⟨t₁, targets₁⟩, hadd, hrest⟩ := bind_eq_ok_iff.mp h
      obtain ⟨ht₁, htargets₁⟩ := addForeignKey_nascent hread ht htargets hadd
      exact ih ht₁ htargets₁ hrest

/-- A definition that succeeds gives a sound table without rows, together with the tables
that it references, in which it is entered. -/
theorem define_eq_ok {name : String} {columns : List ColumnDefinition}
    {constraints : List TableConstraint} {read : TableReader} {entered : List Table}
    (hread : ∀ n u, read n = .ok (some u) → u.name = n)
    (h : define name columns constraints read = .ok (t, entered)) :
    t.Nascent name ∧
      ∃ targets, Targets read t targets ∧ entered = targets.map (·.withReferrer name) := by
  simp only [define] at h
  split at h
  · cases h
  · simp only [bind_eq_ok_iff, Failure.lift_eq_ok_iff, pure_eq_ok_iff, Prod.mk.injEq] at h
    obtain ⟨t₁, hcolumns, t₂, hkey, ⟨t₃, targets⟩, hforeign, rfl, rfl⟩ := h
    obtain ⟨ht₁, hnokey, hnofks⟩ := addColumns_nascent (nascent_blank name) rfl rfl hcolumns
    obtain ⟨ht₂, hnofks⟩ := addKeyColumns_nascent ht₁ hnofks hkey
    have hnone : Targets read t₂ [] := ⟨.nil, by simp, by simp, by simp [hnofks]⟩
    obtain ⟨ht₃, htargets⟩ := addForeignKeys_nascent hread ht₂ hnone hforeign
    exact ⟨ht₃, targets, htargets, rfl⟩

end Table

end RelationalStore
