import RelationalStore.Proofs.Integrity.Acceptance

/-!
# What is refused as a duplicate

A primary key is taken if a row has values in its columns that compare as equal. For integers
and texts these are the same values, and for dates they are dates of one ordinal. The fields of
a date are not limited where it does not come from a literal, so that two different dates can
have one ordinal, and the later of them is then refused for the earlier. This takes a month or
a day that does not fit its two digits of the ordinal.
-/

namespace RelationalStore

namespace Date

variable {d d' : Date}

/-- The month or the day has more than the two digits that the ordinal leaves it. -/
def Wide (d : Date) : Prop :=
  100 ≤ d.month.toNat ∨ 100 ≤ d.day.toNat

instance (d : Date) : Decidable d.Wide :=
  inferInstanceAs (Decidable (_ ∨ _))

/-- A date of fields in their ranges keeps to the digits of its ordinal. -/
theorem not_wide_of_ofFields {year month day : UInt32} (h : ofFields year month day = .ok d) :
    ¬ d.Wide := by
  unfold ofFields at h
  split at h
  · next hranges =>
    obtain rfl := Except.ok.inj h
    simp only [Wide]
    omega
  · cases h

/-- So does a date that is read from a literal. -/
theorem not_wide_of_parse {text : String} (h : parse text = .ok d) : ¬ d.Wide := by
  unfold parse at h
  dsimp only at h
  split at h
  · split at h
    · obtain ⟨_, _, h⟩ := bind_eq_ok_iff.mp h
      obtain ⟨_, _, h⟩ := bind_eq_ok_iff.mp h
      obtain ⟨_, _, h⟩ := bind_eq_ok_iff.mp h
      exact not_wide_of_ofFields h
    · cases h
  · cases h

/-- The ordinal tells all dates apart that keep to its digits. -/
theorem eq_of_ordinal_eq (hd : ¬ d.Wide) (hd' : ¬ d'.Wide) (h : d.ordinal = d'.ordinal) :
    d = d' := by
  obtain ⟨year, month, day⟩ := d
  obtain ⟨year', month', day'⟩ := d'
  simp only [Wide, ordinal] at hd hd' h
  have hyear : year = year' := UInt32.toNat_inj.mp (by omega)
  have hmonth : month = month' := UInt32.toNat_inj.mp (by omega)
  have hday : day = day' := UInt32.toNat_inj.mp (by omega)
  rw [hyear, hmonth, hday]

end Date

namespace Value

/-- The values are different dates of one ordinal, one of which does not keep to its digits. -/
def Collides (v w : Value) : Prop :=
  ∃ d d', v = date d ∧ w = date d' ∧ d ≠ d' ∧ d.ordinal = d'.ordinal ∧ (d.Wide ∨ d'.Wide)

/-- Values compare as equal if they are the same and not NULL, or dates that collide. -/
theorem same_iff_eq_or_collides {v w : Value} :
    v.Same w ↔ (v = w ∧ v ≠ null) ∨ v.Collides w := by
  constructor
  · intro hsame
    cases v with
    | null => exact absurd hsame not_null_same
    | integer x =>
      cases w with
      | integer y => exact .inl ⟨congrArg integer (same_integer_iff.mp hsame), by simp⟩
      | _ => cases hsame
    | char x =>
      cases w with
      | char y => exact .inl ⟨congrArg char (same_char_iff.mp hsame), by simp⟩
      | _ => cases hsame
    | date d =>
      cases w with
      | date d' =>
        have hordinal := same_date_iff.mp hsame
        by_cases heq : d = d'
        · exact .inl ⟨congrArg date heq, by simp⟩
        · refine .inr ⟨d, d', rfl, rfl, heq, hordinal, ?_⟩
          by_contra hnarrow
          rw [not_or] at hnarrow
          exact heq (Date.eq_of_ordinal_eq hnarrow.1 hnarrow.2 hordinal)
      | _ => cases hsame
  · rintro (⟨rfl, hne⟩ | ⟨d, d', rfl, rfl, _, hordinal, _⟩)
    · exact same_self hne
    · exact same_date_iff.mpr hordinal

end Value

namespace Table

variable {t : Table} {row : Row} {read : TableReader} {columns : Option (List String)}
  {values : List Value}

/-- A row of the table has the primary key of the row if its values are those of this row or
collide with them. -/
theorem Sound.sameKey_iff (ht : t.Sound) {found : Row} (hfound : found ∈ t.rows) :
    t.SameKey row found ↔ ∀ column ∈ t.primaryKey, ∃ v w,
      t.schema.value? found column = some v ∧ t.schema.value? row column = some w ∧
        (v = w ∨ v.Collides w) := by
  rw [SameKey, Schema.Agree, List.forall₂_same]
  refine forall₂_congr fun column hcolumn => ?_
  obtain ⟨v, hv, hne⟩ := ht.exists_key_value hfound hcolumn
  simp [hv, Value.same_iff_eq_or_collides, hne]

/-- The check of the primary key refuses exactly the rows whose key some row has. -/
theorem checkPrimaryKey_eq_duplicate_iff (ht : t.Sound) (hadmits : t.schema.Admits row) :
    t.checkPrimaryKey row = .error .insertDuplicateKey ↔
      t.primaryKey ≠ [] ∧ ∃ found ∈ t.rows, t.SameKey row found := by
  have hpasses := checkPrimaryKey_eq_ok_iff ht hadmits
  cases hcheck : t.checkPrimaryKey row with
  | error e =>
    obtain rfl := checkPrimaryKey_failsOnly ht hadmits e hcheck
    refine iff_of_true rfl ?_
    by_contra hfree
    have hok := hpasses.mpr fun hne found hfound hsame => hfree ⟨hne, found, hfound, hsame⟩
    rw [hcheck] at hok
    cases hok
  | ok _ =>
    refine iff_of_false (by simp) fun ⟨hne, found, hfound, hsame⟩ => ?_
    exact hpasses.mp hcheck hne found hfound hsame

/-- An insertion is refused as a duplicate exactly if it gives a row that fits the columns and
whose key is taken. No other check has this fault to report. -/
theorem insert_eq_duplicate_iff (ht : t.Sound) (hdirected : t.Directed read t.foreignKeys) :
    t.insert columns values read = .error (.error .insertDuplicateKey) ↔
      (∀ names, columns = some names → t.Lists names values) ∧
        t.schema.Admits (t.completedRow columns values) ∧ t.primaryKey ≠ [] ∧
          ∃ found ∈ t.rows, t.SameKey (t.completedRow columns values) found := by
  simp only [insert, bind_eq_error_iff, monadLift_self, Failure.lift_eq_error_iff,
    Failure.lift_eq_ok_iff]
  constructor
  · rintro (hbuild | ⟨row, hbuild, hkey | ⟨_, _, hforeign | ⟨_, _, hdone⟩⟩⟩)
    · cases buildRow_failsOnly t columns values _ hbuild
    · obtain ⟨hlisted, hadmits, rfl⟩ := (buildRow_eq_ok_iff ht.distinct).mp hbuild
      exact ⟨hlisted, hadmits, (checkPrimaryKey_eq_duplicate_iff ht hadmits).mp hkey⟩
    · have hadmits := admits_of_buildRow hbuild
      obtain ⟨_, hother⟩ := checkForeignKeys_failsOnly ht hadmits hdirected _ hforeign
      cases hother
    · cases hdone
  · rintro ⟨hlisted, hadmits, htaken⟩
    exact .inr ⟨_, (buildRow_eq_ok_iff ht.distinct).mpr ⟨hlisted, hadmits, rfl⟩,
      .inl ((checkPrimaryKey_eq_duplicate_iff ht hadmits).mpr htaken)⟩

end Table

namespace TableStore

variable {c : TableStore Memory} {tables : TableMap} {t : Table} {name : String}
  {columns : Option (List String)} {values : List Value}

/-- An insertion is refused as a duplicate exactly if there is a table that refuses it so. -/
theorem Holds.insert_eq_duplicate_iff (h : Holds c tables) (hfits : c.FitsMemory) :
    ((Statement.insert name columns values).execute c).1 =
        .error (.error .insertDuplicateKey) ↔
      ∃ t, tables.find name = some t ∧
        t.insert columns values tables.read = .error (.error .insertDuplicateKey) := by
  rw [Statement.execute_insert, Statement.executeInsert, fst_commit_eq_error_iff, bind_eq_error_iff]
  simp only [require_eq_ok_iff, h.load_eq_read hfits, TableMap.read_eq_some_iff]
  refine or_iff_right fun hrequire => ?_
  obtain ⟨hother, _⟩ := require_failsOnly h hfits name _ hrequire
  cases hother

/-- In a reachable catalog an insertion is refused as a duplicate exactly if the table is there,
the row fits its columns, and some row of the table has the primary key of the row: in each
column of the key the same value, or a date that collides with that of the row. -/
theorem Reachable.duplicate_refused (h : Reachable c) (name : String)
    (columns : Option (List String)) (values : List Value) :
    ((Statement.insert name columns values).execute c).1 =
        .error (.error .insertDuplicateKey) ↔
      ∃ t, Catalog.load c name = .ok (some t) ∧
        (∀ names, columns = some names → t.Lists names values) ∧
        t.schema.Admits (t.completedRow columns values) ∧ t.primaryKey ≠ [] ∧
        ∃ found ∈ t.rows, ∀ column ∈ t.primaryKey, ∃ v w,
          t.schema.value? found column = some v ∧
          t.schema.value? (t.completedRow columns values) column = some w ∧
          (v = w ∨ v.Collides w) := by
  obtain ⟨tables, hholds, hsound⟩ := h.sound
  rw [hholds.insert_eq_duplicate_iff h.fitsMemory]
  simp only [hholds.load_eq_some_iff h.fitsMemory]
  refine exists_congr fun t => and_congr_right fun hfind => ?_
  have ht := hsound.sound name t hfind
  rw [Table.insert_eq_duplicate_iff ht (hsound.directed hfind)]
  refine and_congr_right fun _ => and_congr_right fun _ => and_congr_right fun _ => ?_
  exact exists_congr fun found => and_congr_right fun hfound => ht.sameKey_iff hfound

/-- A player with a number that is taken is refused for the player who has it. -/
theorem duplicate_refused_sample : ∃ found ∈ samplePlayers.rows,
    ∀ column ∈ samplePlayers.primaryKey, ∃ v w,
      samplePlayers.schema.value? found column = some v ∧
      samplePlayers.schema.value? [.integer 8, .integer 1] column = some w ∧
      (v = w ∨ v.Collides w) := by
  have hrefused : ((Statement.insert "player" none [.integer 8, .integer 1]).execute sample).1 =
      .error (.error .insertDuplicateKey) := by
    rw [sample_eq]
    decide +kernel
  obtain ⟨t, ht, _, _, _, htaken⟩ :=
    (reachable_sample.duplicate_refused "player" none _).mp hrefused
  obtain rfl := Option.some.inj (Except.ok.inj (load_sample.symm.trans ht))
  exact htaken

/-- The catalog with a table of days that has one row, for a day that is beyond its month. -/
def sampleDated : TableStore Memory :=
  run ⟨Memory.empty⟩
    [.createTable "day" [(ColumnDefinition.plain "on" .date).asPrimaryKey] [],
      .insert "day" none [.date ⟨2024, 1, 101⟩]]

/-- The table of days. -/
def sampleDays : Table where
  name := "day"
  schema := [{ Attribute.plain "on" .date 0 true with table := "day" }.asPrimary]
  rows := [[.date ⟨2024, 1, 101⟩]]
  primaryKey := ["on"]
  foreignKeys := []
  referencedBy := SortedMap.empty

/-- The first day of the second month is refused as a duplicate, and is in no row of the table:
the day that has its ordinal is another. -/
theorem duplicate_without_equal_key :
    Reachable sampleDated ∧ Catalog.load sampleDated "day" = .ok (some sampleDays) ∧
      ((Statement.insert "day" none [.date ⟨2024, 2, 1⟩]).execute sampleDated).1 =
        .error (.error .insertDuplicateKey) ∧
      ¬ ∃ found ∈ sampleDays.rows, ∀ column ∈ sampleDays.primaryKey,
        sampleDays.schema.value? found column =
          sampleDays.schema.value? [.date ⟨2024, 2, 1⟩] column := by
  have hreachable : Reachable sampleDated := Reachable.empty.run (by decide +kernel)
  have hload : Catalog.load sampleDated "day" = .ok (some sampleDays) := by decide +kernel
  have hrefused : ((Statement.insert "day" none [.date ⟨2024, 2, 1⟩]).execute sampleDated).1 =
      .error (.error .insertDuplicateKey) := by decide +kernel
  exact ⟨hreachable, hload, hrefused, by decide⟩

end TableStore

end RelationalStore
