import RelationalStore.Proofs.Table.Deletion
import RelationalStore.Proofs.Table.Lookup

/-!
# Deletions that cannot fail

A deletion looks keys up, finds columns by their names and sets cells to NULL, and each of
these could fail on tables at large. On sound tables none of them does: the columns of a
foreign key are there, every row has a cell for each of them, and tables are still sound
after their references have become NULL. What is left to fail is the condition by which the
rows are chosen.
-/

namespace RelationalStore

namespace Table

variable {t target : Table} {found row : Row} {fk : ForeignKey} {fks : List ForeignKey}
  {key : Cells}

/-- Positions that the row has can be set to NULL one after another. -/
theorem exists_foldlM_setNull {positions : List Nat} (h : ∀ i ∈ positions, i < row.length) :
    ∃ row', positions.foldlM setNull row = .ok row' := by
  have hsteps : FailsOnly (fun _ => False) (positions.foldlM setNull row) := by
    refine .foldlM (I := fun r => r.length = row.length) rfl ?_ ?_
    · intro i hi r hr
      rw [setNull, if_pos (hr ▸ h i hi)]
      exact .ok _
    · intro i hi r r' hr hset
      rw [setNull, if_pos (hr ▸ h i hi)] at hset
      obtain rfl := Except.ok.inj hset
      rw [List.length_set, hr]
  exact hsteps.exists_ok

/-- Columns that are there are found, each at a position within the schema. -/
theorem exists_columnIndices {columns : List String}
    (h : ∀ column ∈ columns, ∃ a ∈ t.schema, a.name = column) :
    ∃ positions, columns.mapM t.columnIndex = .ok positions ∧
      ∀ i ∈ positions, i < t.schema.length := by
  have hfound : FailsOnly (fun _ => False) (columns.mapM t.columnIndex) := by
    refine .mapM fun column hcolumn => ?_
    obtain ⟨a, ha, rfl⟩ := h column hcolumn
    obtain ⟨i, hi⟩ := Schema.exists_position? ha
    exact .of_exists_ok ⟨i, columnIndex_eq_ok_iff.mpr hi⟩
  obtain ⟨positions, hpositions⟩ := hfound.exists_ok
  refine ⟨positions, hpositions, fun i hi => ?_⟩
  obtain ⟨column, _, hcolumn⟩ := (mapM_eq_ok_iff.mp hpositions).exists_left hi
  obtain ⟨a, ha, _⟩ := Schema.getElem?_of_position? (columnIndex_eq_ok_iff.mp hcolumn)
  exact (List.getElem?_eq_some_iff.mp ha).1

/-- In rows that are all as long as the schema, every column can be set to NULL. -/
theorem exists_nullRows {rows : List Row} {positions : List Nat} {length : Nat}
    (numbers : List Nat) (hrows : ∀ row ∈ rows, row.length = length)
    (hpositions : ∀ i ∈ positions, i < length) :
    ∃ rows', nullRows rows numbers positions = .ok rows' := by
  have heach : FailsOnly (fun _ => False) (nullRows rows numbers positions) := by
    refine .mapM fun entry hentry => ?_
    have hrow : entry.1 ∈ rows :=
      List.mem_of_getElem? (List.mem_zipIdx_iff_getElem?.mp hentry)
    dsimp only
    split
    · exact .of_exists_ok (exists_foldlM_setNull fun i hi => hrows _ hrow ▸ hpositions i hi)
    · exact .ok _
  exact heach.exists_ok

/-- The references through a foreign key that fits can be set to NULL. -/
theorem exists_nullReferences (ht : t.Sound) (htarget : target.Sound)
    (hfits : fk.Fits t.schema target) (hfound : target.schema.Admits found)
    (hkey : target.cells found target.primaryKey = .ok key) :
    ∃ result, t.nullReferences fk key = .ok result := by
  obtain ⟨entries, hentries⟩ := hfits.exists_referencingRows ht htarget hfound hkey
  have hthere : ∀ column ∈ fk.columns, ∃ a ∈ t.schema, a.name = column :=
    fun column hcolumn => hfits.exists_attribute hcolumn
  obtain ⟨positions, hpositions, hbound⟩ := exists_columnIndices hthere
  have hfilled : ∀ row ∈ t.rows, row.length = t.schema.length :=
    fun row hrow => (ht.admits row hrow).length_eq.symm
  obtain ⟨rows, hrows⟩ := exists_nullRows (entries.map Prod.snd) hfilled hbound
  have hsteps : FailsOnly (fun _ => False) (t.nullReferences fk key) := by
    refine FailsOnly.bind_ok (Failure.lift_eq_ok_iff.mpr hentries) ?_
    refine FailsOnly.bind_ok (Failure.lift_eq_ok_iff.mpr hpositions) ?_
    exact FailsOnly.bind_ok hrows (.ok _)
  exact hsteps.exists_ok

/-- One foreign key after another can be set to NULL: the table stays sound on the way. -/
theorem exists_nullReferencesThrough (ht : t.Sound) (htarget : target.Sound)
    (hne : target.primaryKey ≠ []) (hfound : target.schema.Admits found)
    (hkey : target.cells found target.primaryKey = .ok key)
    (hfks : ∀ fk ∈ fks, fk ∈ t.foreignKeys ∧ fk.table = target.name ∧ fk.nullable = true)
    (hfits : ∀ fk ∈ fks, fk.Fits t.schema target) (count : Nat) :
    ∃ result, nullReferencesThrough key fks (t, count) = .ok result := by
  induction fks generalizing t count with
  | nil => exact ⟨(t, count), rfl⟩
  | cons fk fks ih =>
    rw [List.forall_mem_cons] at hfks hfits
    obtain ⟨⟨s, n⟩, hs⟩ := exists_nullReferences ht htarget hfits.1 hfound hkey
    obtain ⟨hlapsed, _⟩ := nullReferences_unlinked ht.distinct hne hfits.1 hkey hs
    have hsound : s.Sound := by
      refine hlapsed.sound (fun a ha hcolumn => ?_) ht
      obtain ⟨hmem, htable, hnullable⟩ := hfks.1
      exact ht.nullable_of_lapsesWith ha ⟨fk, hmem, htable, hnullable, hcolumn⟩
    obtain ⟨result, hresult⟩ := ih hsound (hlapsed.foreignKeys_eq ▸ hfks.2)
      (hlapsed.schema_eq ▸ hfits.2) (count + n)
    refine ⟨result, ?_⟩
    rw [nullReferencesThrough, hs]
    exact hresult

/-- Clearing the references to a row of a sound target succeeds. -/
theorem exists_cascadeNull (ht : t.Sound) (hrefers : t.Referrer target) (htarget : target.Sound)
    (hne : target.primaryKey ≠ []) (hfound : target.schema.Admits found)
    (hkey : target.cells found target.primaryKey = .ok key) :
    ∃ result, t.cascadeNull target.name key = .ok result := by
  refine exists_nullReferencesThrough ht htarget hne hfound hkey ?_ hrefers.fits_nullable 0
  intro fk hfk
  exact ForeignKey.mem_nullable_iff.mp hfk

/-- Whether foreign keys that fit restrict a row can be told. -/
theorem exists_restrictsThrough (ht : t.Sound) (htarget : target.Sound)
    (hfound : target.schema.Admits found)
    (hkey : target.cells found target.primaryKey = .ok key)
    (hfits : ∀ fk ∈ fks, fk.Fits t.schema target) :
    ∃ answer, t.restrictsThrough key fks = .ok answer := by
  induction fks with
  | nil => exact ⟨false, rfl⟩
  | cons fk fks ih =>
    rw [List.forall_mem_cons] at hfits
    obtain ⟨entries, hentries⟩ := hfits.1.exists_referencingRows ht htarget hfound hkey
    obtain ⟨answer, hanswer⟩ := ih hfits.2
    rw [restrictsThrough, hentries]
    by_cases hempty : entries.isEmpty = true
    · exact ⟨answer, (if_pos hempty).trans hanswer⟩
    · exact ⟨true, if_neg hempty⟩

/-- It can be told whether a key is restricted by one of several sound tables. -/
theorem exists_anyRestricts {tables : List Table}
    (htables : ∀ t ∈ tables, t.Sound ∧ t.Referrer target) (htarget : target.Sound)
    (hfound : target.schema.Admits found)
    (hkey : target.cells found target.primaryKey = .ok key) :
    ∃ answer, anyRestricts target.name key tables = .ok answer := by
  induction tables with
  | nil => exact ⟨false, rfl⟩
  | cons t tables ih =>
    obtain ⟨⟨ht, hrefers⟩, htables⟩ := List.forall_mem_cons.mp htables
    obtain ⟨first, hfirst⟩ :=
      exists_restrictsThrough ht htarget hfound hkey hrefers.fits_required
    obtain ⟨answer, hanswer⟩ := ih htables
    rw [anyRestricts, hfirst]
    cases first with
    | true => exact ⟨true, rfl⟩
    | false => exact ⟨answer, hanswer⟩

end Table

namespace Deletion

variable {t : Table} {found : Row} {key : Cells} {referrers : List Table} {d : Deletion}
  {entry : Row × Nat}

/-- The cascade of a row of a sound table succeeds. -/
theorem exists_cascade {state : List (Table × Bool)}
    (hstate : ∀ x ∈ state, x.1.Sound ∧ x.1.Referrer t) (ht : t.Sound) (hne : t.primaryKey ≠ [])
    (hfound : t.schema.Admits found) (hkey : t.cells found t.primaryKey = .ok key) :
    ∃ state', cascade t.name key state = .ok state' := by
  induction state with
  | nil => exact ⟨[], rfl⟩
  | cons x state ih =>
    obtain ⟨⟨hx, hrefers⟩, hstate⟩ := List.forall_mem_cons.mp hstate
    obtain ⟨⟨u, n⟩, hu⟩ := Table.exists_cascadeNull hx hrefers ht hne hfound hkey
    obtain ⟨state', hstate'⟩ := ih hstate
    refine ⟨(u, x.2 || decide (0 < n)) :: state', ?_⟩
    rw [cascade, hu, hstate']
    rfl

/-- The referencing tables stay sound while references to the rows that go become NULL. -/
theorem Follows.sound (hd : Follows t referrers d)
    (hreferrers : ∀ r ∈ referrers, r.Sound ∧ r.Referrer t) :
    ∀ x ∈ d.referrers, x.1.Sound ∧ x.1.Referrer t := by
  intro x hx
  obtain ⟨r, hr, hlapsed, _⟩ := hd.referrers.exists_left hx
  obtain ⟨hsound, hrefers⟩ := hreferrers r hr
  exact ⟨hlapsed.sound (fun a ha => hsound.nullable_of_lapsesWith ha) hsound,
    hlapsed.referrer hrefers⟩

/-- A decision about a row of a sound table can be made. -/
theorem Follows.exists_decideRow (hd : Follows t referrers d) (ht : t.Sound)
    (hreferrers : ∀ r ∈ referrers, r.Sound ∧ r.Referrer t)
    (hentry : t.rows[entry.2]? = some entry.1) : ∃ d', d.decideRow t entry = .ok d' := by
  refine FailsOnly.exists_ok ?_
  unfold Deletion.decideRow
  split
  · exact .ok _
  · next hnonempty =>
    have hne : t.primaryKey ≠ [] := fun hnil => hnonempty (List.isEmpty_iff.mpr hnil)
    have hadmits := ht.admits entry.1 (List.mem_of_getElem? hentry)
    have hstate := hd.sound hreferrers
    obtain ⟨key, hkey⟩ := Table.exists_cells hadmits ht.key_defined
    obtain ⟨restricted, hrestricted⟩ :=
      Table.exists_anyRestricts (List.forall_mem_map.mpr hstate) ht hadmits hkey
    obtain ⟨state, hcascade⟩ := exists_cascade hstate ht hne hadmits hkey
    refine FailsOnly.bind_ok (Failure.lift_eq_ok_iff.mpr hkey) ?_
    refine FailsOnly.bind_ok (Failure.lift_eq_ok_iff.mpr hrestricted) ?_
    split
    · exact .ok _
    · exact FailsOnly.bind_ok hcascade (.ok _)

end Deletion

namespace Table

variable {t : Table} {read : TableReader} {condition : Option Condition}

/-- A deletion from a sound table that sound tables reference fails only where its condition
fails on a row of the table. -/
theorem delete_failsOnly (ht : t.Sound) {referrers : List Table}
    (hread : t.referrers read = .ok referrers)
    (hreferrers : ∀ r ∈ referrers, r.Sound ∧ r.Referrer t) :
    FailsOnly (fun f => ∃ e c row, f = .error e ∧ condition = some c ∧ row ∈ t.rows ∧
      c.evaluate row t.schema = .error e) (t.delete condition read) := by
  have hmatching : FailsOnly (fun e => ∃ c row, condition = some c ∧ row ∈ t.rows ∧
      c.evaluate row t.schema = .error e) (Condition.matching condition t.schema t.rows) :=
    Condition.matching_failsOnly condition t.rows
  refine FailsOnly.bind (.lift (hmatching.mono ?_)) fun chosen hchosen => ?_
  · rintro e ⟨c, row, hc, hrow, he⟩
    exact ⟨e, c, row, rfl, hc, hrow, he⟩
  · have hchosen := Failure.lift_eq_ok_iff.mp hchosen
    have hentries : ∀ entry ∈ chosen, t.rows[entry.2]? = some entry.1 :=
      fun entry hentry => Condition.getElem?_of_mem_matching hchosen hentry
    refine FailsOnly.bind_ok hread (FailsOnly.bind ?_ fun d _ => .ok _)
    -- every decision can be made as long as the earlier ones left the tables sound
    refine .foldlM (I := Deletion.Follows t referrers) (Deletion.follows_start t referrers) ?_ ?_
    · intro entry hentry d hd
      exact .of_exists_ok (hd.exists_decideRow ht hreferrers (hentries entry hentry))
    · intro entry hentry d d' hd hdecide
      exact hd.decideRow (fun r hr => (hreferrers r hr).2) (referrers_eq_nil hread)
        (hentries entry hentry) hdecide

end Table

end RelationalStore
