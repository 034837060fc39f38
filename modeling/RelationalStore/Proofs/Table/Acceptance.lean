import RelationalStore.Proofs.Table.Refusal

/-!
# Which rows an insertion accepts

An insertion completes a row and has it checked by columns, by the primary key and by the
foreign keys. Here the outcome of all these checks is one condition on the completed row,
which speaks of values that compare as equal and not of the lookups that find them out. It is
necessary and sufficient: a sound table whose foreign keys lead to sound targets accepts
exactly the rows of which it holds.
-/

namespace RelationalStore

namespace Table

/-- The row of an insertion: the values in their columns, and NULL in columns that are not
listed. Without a list the values are the row. -/
def completedRow (t : Table) (columns : Option (List String)) (values : List Value) : Row :=
  match columns with
  | none => values
  | some names => t.schema.map fun a => ((names.zip values).lookup a.name).getD .null

/-- The names are those of different columns, one for each of the values. -/
structure Lists (t : Table) (names : List String) (values : List Value) : Prop where
  length_eq : names.length = values.length
  different : names.Nodup
  defined : ∀ name ∈ names, ∃ a ∈ t.schema, a.name = name

/-- Some column of a foreign key of the table is NULL in the row. -/
def Waived (t : Table) (row : Row) : Prop :=
  ∃ fk ∈ t.foreignKeys, ∃ column ∈ fk.columns, t.schema.value? row column = some .null

/-- The row is linked to some row of the table to which the foreign key leads. -/
def FindsTarget (t : Table) (read : TableReader) (row : Row) (fk : ForeignKey) : Prop :=
  ∃ target, read fk.table = .ok (some target) ∧
    ∃ found ∈ target.rows, fk.Links t.schema row target.schema found

instance (t : Table) (read : TableReader) (row : Row) (fk : ForeignKey) :
    Decidable (t.FindsTarget read row fk) :=
  match hread : read fk.table with
  | .ok (some target) =>
    decidable_of_iff (∃ found ∈ target.rows, fk.Links t.schema row target.schema found)
      (by simp [FindsTarget, hread])
  | .ok none => isFalse (by simp [FindsTarget, hread])
  | .error _ => isFalse (by simp [FindsTarget, hread])

/-- What an insertion has to keep to for the table to take its row in. -/
structure Accepts (t : Table) (read : TableReader) (columns : Option (List String))
    (values : List Value) : Prop where
  /-- If columns are listed, each value has its column. -/
  listed : ∀ names, columns = some names → t.Lists names values
  /-- There is a value for each column, and it passes the check of the column. -/
  admitted : t.schema.Admits (t.completedRow columns values)
  /-- No row of the table has the same primary key, if there is one. -/
  keyFree : t.primaryKey ≠ [] →
    ∀ found ∈ t.rows, ¬ t.SameKey (t.completedRow columns values) found
  /-- A foreign key has a NULL, or every foreign key leads to a row of its target. -/
  referenced : t.Waived (t.completedRow columns values) ∨
    ∀ fk ∈ t.foreignKeys, t.FindsTarget read (t.completedRow columns values) fk

variable {t t' : Table} {row : Row} {read read' : TableReader} {columns : Option (List String)}
  {values : List Value}

section Completion

/-- A name repeats one before it unless all names are different and new. -/
theorem firstRepeated?_eq_none_iff {seen names : List String} :
    firstRepeated? seen names = none ↔ names.Nodup ∧ ∀ name ∈ names, name ∉ seen := by
  induction names generalizing seen with
  | nil => simp [firstRepeated?]
  | cons name rest ih =>
    rw [firstRepeated?]
    by_cases hname : name ∈ seen
    · simp [hname]
    · rw [if_neg hname, ih, List.nodup_cons, List.forall_mem_cons]
      simp only [List.mem_cons, not_or]
      constructor
      · rintro ⟨hnodup, hnew⟩
        exact ⟨⟨fun hmem => (hnew name hmem).1 rfl, hnodup⟩, hname,
          fun other hother => (hnew other hother).2⟩
      · rintro ⟨⟨hother, hnodup⟩, _, hnew⟩
        exact ⟨hnodup, fun other hmem => ⟨fun heq => hother (heq ▸ hmem), hnew other hmem⟩⟩

/-- Taking the cells of one column away changes nothing for the others. -/
theorem lookup_filter_ne {given : Cells} {name other : String} (hne : name ≠ other) :
    (given.filter (·.1 != other)).lookup name = given.lookup name := by
  induction given with
  | nil => rfl
  | cons x given ih =>
    by_cases hx : x.1 = other
    · have hname : name ≠ x.1 := hx ▸ hne
      rw [List.filter_cons_of_neg (by simp [hx]), ih, List.lookup_cons, beq_false_of_ne hname]
    · rw [List.filter_cons_of_pos (by simp [hx]), List.lookup_cons, List.lookup_cons, ih]

/-- Among columns of different names each value is looked up as it was given. -/
theorem arrange_eq_map {schema : Schema} (hdistinct : schema.Distinct) (given : Cells) :
    arrange schema given = schema.map fun a => (given.lookup a.name).getD .null := by
  induction schema generalizing given with
  | nil => rfl
  | cons a schema ih =>
    obtain ⟨hnew, hrest⟩ := List.nodup_cons.mp hdistinct
    rw [arrange, List.map_cons, ih hrest]
    refine congrArg _ (List.map_congr_left fun b hb => ?_)
    have hne : b.name ≠ a.name := fun heq => hnew (List.mem_map.mpr ⟨b, hb, heq⟩)
    rw [lookup_filter_ne hne]

/-- A row is given with a list of columns in the right form exactly if the list is one. -/
theorem givenRow_some_eq_ok_iff (hdistinct : t.schema.Distinct) {names : List String} :
    t.givenRow (some names) values = .ok row ↔
      t.Lists names values ∧ row = t.completedRow (some names) values := by
  have hrepeated : firstRepeated? [] names = none ↔ names.Nodup := by
    simp [firstRepeated?_eq_none_iff]
  have hmissing : (names.find? fun name => (t.attribute? name).isNone) = none ↔
      ∀ name ∈ names, ∃ a ∈ t.schema, a.name = name := by
    simp only [List.find?_eq_none, attribute?_isNone_iff, not_not]
  constructor
  · intro h
    simp only [givenRow] at h
    split at h
    · cases h
    · next hlength =>
      split at h
      · cases h
      · next hnodup =>
        split at h
        · cases h
        · next hall =>
          rw [arrange_eq_map hdistinct] at h
          exact ⟨⟨not_not.mp hlength, hrepeated.mp hnodup, hmissing.mp hall⟩,
            (Except.ok.inj h).symm⟩
  · rintro ⟨⟨hlength, hnodup, hall⟩, rfl⟩
    simp only [givenRow, hlength, ne_eq, not_true_eq_false, if_false, hrepeated.mpr hnodup,
      hmissing.mpr hall, arrange_eq_map hdistinct, completedRow]

/-- Values are checked with success exactly if the row fits the schema. -/
theorem checkValues_eq_ok_iff {schema : Schema} (hlength : row.length = schema.length) :
    checkValues schema row = .ok () ↔ schema.Admits row := by
  refine ⟨admits_of_checkValues hlength, fun h => ?_⟩
  induction h with
  | nil => rfl
  | cons hv _ ih => exact bind_eq_ok_iff.mpr ⟨(), hv, ih (by simpa using hlength)⟩

/-- A row is built exactly if its columns are listed as they have to be and its values fit. -/
theorem buildRow_eq_ok_iff (hdistinct : t.schema.Distinct) :
    t.buildRow columns values = .ok row ↔
      (∀ names, columns = some names → t.Lists names values) ∧ t.schema.Admits row ∧
        row = t.completedRow columns values := by
  simp only [buildRow, bind_eq_ok_iff, pure_eq_ok_iff]
  constructor
  · rintro ⟨_, hgiven, _, hcheck, rfl⟩
    refine ⟨?_, (checkValues_eq_ok_iff (length_of_givenRow hgiven)).mp hcheck, ?_⟩
    · rintro names rfl
      exact ((givenRow_some_eq_ok_iff hdistinct).mp hgiven).1
    · cases columns with
      | none =>
        simp only [givenRow] at hgiven
        split at hgiven
        · exact (Except.ok.inj hgiven).symm
        · cases hgiven
      | some names => exact ((givenRow_some_eq_ok_iff hdistinct).mp hgiven).2
  · rintro ⟨hlisted, hadmits, hrow⟩
    have hlength : row.length = t.schema.length := hadmits.length_eq.symm
    refine ⟨row, ?_, (), (checkValues_eq_ok_iff hlength).mpr hadmits, rfl⟩
    cases columns with
    | none =>
      obtain rfl : row = values := hrow
      exact if_pos hlength
    | some names => exact (givenRow_some_eq_ok_iff hdistinct).mpr ⟨hlisted names rfl, hrow⟩

end Completion

section Keys

/-- The check of the primary key is passed exactly by a row whose key is new. -/
theorem checkPrimaryKey_eq_ok_iff (ht : t.Sound) (hadmits : t.schema.Admits row) :
    t.checkPrimaryKey row = .ok () ↔
      (t.primaryKey ≠ [] → ∀ found ∈ t.rows, ¬ t.SameKey row found) := by
  refine ⟨fun h hne => not_sameKey_of_checkPrimaryKey ht.distinct hne h, fun hfree => ?_⟩
  obtain ⟨key, hkey⟩ := exists_cells hadmits ht.key_defined
  obtain ⟨taken, htaken⟩ := ht.exists_matching_key hadmits hkey
  refine bind_eq_ok_iff.mpr ⟨key, hkey, ?_⟩
  cases hcondition : Condition.conjunction key with
  | none => rfl
  | some condition =>
    have hne : t.primaryKey ≠ [] := by
      intro hnil
      rw [hnil] at hkey
      obtain rfl := List.forall₂_nil_left_iff.mp (cells_eq_ok_iff.mp hkey)
      cases hcondition
    have hnone : taken = [] := by
      refine List.eq_nil_iff_forall_not_mem.mpr fun ⟨found, i⟩ hmem => ?_
      obtain ⟨hi, hhold⟩ :=
        (Condition.mem_matching_conjunction_iff ht.distinct htaken).mp hmem
      exact hfree hne found (List.mem_of_getElem? hi) ((holdIn_key_iff hkey).mp hhold)
    rw [hcondition] at htaken
    exact bind_eq_ok_iff.mpr ⟨taken, htaken, if_pos (List.isEmpty_iff.mpr hnone)⟩

/-- The search for a NULL in some foreign keys finds one exactly if there is one. -/
theorem hasNullReference_iff {fks : List ForeignKey} {answer : Bool}
    (h : t.hasNullReference row fks = .ok answer) :
    answer = true ↔
      ∃ fk ∈ fks, ∃ column ∈ fk.columns, t.schema.value? row column = some .null := by
  constructor
  · rintro rfl
    exact exists_null_of_hasNullReference h
  · intro hnull
    induction fks with
    | nil => simp at hnull
    | cons fk fks ih =>
      obtain ⟨cells, hcells, h⟩ := bind_eq_ok_iff.mp h
      split at h
      · exact (Except.ok.inj h).symm
      · next hpresent =>
        refine ih h ?_
        obtain ⟨other, hother, column, hcolumn, hvalue⟩ := hnull
        rcases List.mem_cons.mp hother with rfl | hother
        · obtain ⟨_, hx, v, hv, rfl⟩ := (cells_eq_ok_iff.mp hcells).exists_right hcolumn
          obtain rfl := Option.some.inj (hvalue.symm.trans hv)
          exact absurd (List.any_eq_true.mpr ⟨_, hx, rfl⟩) hpresent
        · exact ⟨other, hother, column, hcolumn, hvalue⟩

/-- The check of the references goes on exactly where the first of them has a target. -/
theorem checkTargets_cons (ht : t.Sound) (hadmits : t.schema.Admits row) {fk : ForeignKey}
    {fks : List ForeignKey} (hfks : t.Directed read (fk :: fks)) :
    t.checkTargets row read (fk :: fks) =
      if t.FindsTarget read row fk then t.checkTargets row read fks
      else .error (.error (.insertReference fk.table)) := by
  obtain ⟨⟨target, hread, htarget, hfits⟩, _⟩ := List.forall_mem_cons.mp hfks
  obtain ⟨cells, hcells⟩ := exists_cells hadmits fun _ => hfits.exists_attribute
  obtain ⟨entries, hentries⟩ := hfits.exists_targetRows ht htarget hadmits hcells
  have hmem {found : Row} {i : Nat} : (found, i) ∈ entries ↔
      target.rows[i]? = some found ∧ fk.Links t.schema row target.schema found :=
    ForeignKey.mem_targetRows_iff htarget.distinct hfits.pairs.length_eq hcells hentries
  have hfinds : t.FindsTarget read row fk ↔ entries ≠ [] := by
    constructor
    · rintro ⟨other, hother, found, hfound, hlinks⟩ hnil
      obtain rfl := Option.some.inj (Except.ok.inj (hread.symm.trans hother))
      obtain ⟨i, hi⟩ := List.getElem?_of_mem hfound
      simpa [hnil] using hmem.mpr ⟨hi, hlinks⟩
    · intro hne
      obtain ⟨⟨found, i⟩, hentry⟩ := List.exists_mem_of_ne_nil entries hne
      obtain ⟨hi, hlinks⟩ := hmem.mp hentry
      exact ⟨target, hread, found, List.mem_of_getElem? hi, hlinks⟩
  rw [checkTargets, hread]
  simp only [bind, Except.bind, checkTarget, hcells, hentries]
  by_cases hnil : entries = []
  · rw [if_pos (List.isEmpty_iff.mpr hnil), if_neg fun h => hfinds.mp h hnil]
    rfl
  · rw [if_neg fun h => hnil (List.isEmpty_iff.mp h), if_pos (hfinds.mpr hnil)]
    rfl

/-- The check of the references is passed exactly where each of them has a target. -/
theorem checkTargets_eq_ok_iff (ht : t.Sound) (hadmits : t.schema.Admits row)
    {fks : List ForeignKey} (hfks : t.Directed read fks) :
    t.checkTargets row read fks = .ok () ↔ ∀ fk ∈ fks, t.FindsTarget read row fk := by
  induction fks with
  | nil => simp [checkTargets]
  | cons fk fks ih =>
    rw [checkTargets_cons ht hadmits hfks, List.forall_mem_cons,
      ← ih (List.forall_mem_cons.mp hfks).2]
    by_cases hfinds : t.FindsTarget read row fk
    · simp [hfinds]
    · simp [hfinds]

/-- The check of the references depends on the tables only in which targets are found. -/
theorem checkTargets_congr (ht : t.Sound) (hadmits : t.schema.Admits row) {fks : List ForeignKey}
    (hfks : t.Directed read fks) (hfks' : t.Directed read' fks)
    (hsame : ∀ fk ∈ fks, t.FindsTarget read' row fk ↔ t.FindsTarget read row fk) :
    t.checkTargets row read' fks = t.checkTargets row read fks := by
  induction fks with
  | nil => rfl
  | cons fk fks ih =>
    rw [List.forall_mem_cons] at hsame
    rw [checkTargets_cons ht hadmits hfks, checkTargets_cons ht hadmits hfks',
      ih (List.forall_mem_cons.mp hfks).2 (List.forall_mem_cons.mp hfks').2 hsame.2]
    simp only [hsame.1]

/-- References are in order exactly if they are waived or each of them has a target. -/
theorem checkForeignKeys_eq_ok_iff (ht : t.Sound) (hadmits : t.schema.Admits row)
    (hdirected : t.Directed read t.foreignKeys) :
    t.checkForeignKeys row read = .ok () ↔
      t.Waived row ∨ ∀ fk ∈ t.foreignKeys, t.FindsTarget read row fk := by
  obtain ⟨waived, hwaived⟩ := exists_hasNullReference hadmits hdirected.exists_attribute
  have hnull : waived = true ↔ t.Waived row := hasNullReference_iff hwaived
  rw [checkForeignKeys, hwaived, ← hnull, ← checkTargets_eq_ok_iff ht hadmits hdirected]
  cases waived with
  | true => exact iff_of_true rfl (.inl rfl)
  | false => simp [bind, Except.bind]

end Keys

/-- A table takes in exactly the rows that it accepts, at its end, and stays otherwise as it
is. -/
theorem insert_eq_ok_iff (ht : t.Sound) (hdirected : t.Directed read t.foreignKeys) :
    t.insert columns values read = .ok t' ↔ t.Accepts read columns values ∧
      t' = { t with rows := t.rows ++ [t.completedRow columns values] } := by
  simp only [insert, bind_eq_ok_iff, monadLift_self, Failure.lift_eq_ok_iff, pure_eq_ok_iff,
    buildRow_eq_ok_iff ht.distinct]
  constructor
  · rintro ⟨_, ⟨hlisted, hadmits, rfl⟩, _, hkey, _, hforeign, rfl⟩
    exact ⟨⟨hlisted, hadmits, (checkPrimaryKey_eq_ok_iff ht hadmits).mp hkey,
      (checkForeignKeys_eq_ok_iff ht hadmits hdirected).mp hforeign⟩, rfl⟩
  · rintro ⟨haccepts, rfl⟩
    have hadmits := haccepts.admitted
    exact ⟨_, ⟨haccepts.listed, hadmits, rfl⟩, (),
      (checkPrimaryKey_eq_ok_iff ht hadmits).mpr haccepts.keyFree, (),
      (checkForeignKeys_eq_ok_iff ht hadmits hdirected).mpr haccepts.referenced, rfl⟩

/-- Whether a row is accepted, and what it is refused for, depends on the other tables only in
which targets are found. -/
theorem insert_congr (ht : t.Sound) (hdirected : t.Directed read t.foreignKeys)
    (hdirected' : t.Directed read' t.foreignKeys)
    (hsame : ∀ row, t.schema.Admits row → ∀ fk ∈ t.foreignKeys,
      t.FindsTarget read' row fk ↔ t.FindsTarget read row fk) :
    t.insert columns values read' = t.insert columns values read := by
  unfold insert checkForeignKeys
  cases hbuild : t.buildRow columns values with
  | error e => rfl
  | ok row =>
    have hadmits := admits_of_buildRow hbuild
    have htargets := checkTargets_congr ht hadmits hdirected hdirected' (hsame row hadmits)
    simp only [Failure.lift_ok, monadLift_self, bind, Except.bind, htargets]

end Table

end RelationalStore
