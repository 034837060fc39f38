import Mathlib.Data.List.Induction
import RelationalStore.Proofs.Table.Deletion

/-!
# Which rows a deletion keeps

A deletion decides about the chosen rows one after another. A row is kept exactly if a
reference that admits no NULL leads to it when its turn comes, in the referencing tables as
the rows that have gone before have left them. So the whole deletion is told by what a row
that goes makes of the rows that reference it.
-/

namespace RelationalStore

namespace ForeignKey

variable {fk : ForeignKey} {source target : Schema} {found row row' : Row}

/-- The row with the columns of the foreign key cleared if it is linked to the given row. -/
def lapse (fk : ForeignKey) (source target : Schema) (found row : Row) : Row :=
  if fk.Links source row target found then source.clear fk.columns row else row

/-- A row that has been cleared for a foreign key is the row that lapses with it. -/
theorem Clears.eq_lapse (h : fk.Clears source target found row row') :
    row' = fk.lapse source target found row := by
  unfold lapse
  rcases h with ⟨hlinks, rfl⟩ | ⟨hfree, rfl⟩
  · rw [if_pos hlinks]
  · rw [if_neg hfree]

/-- The foreign key has the column and links the row to the given one, so that the value in
the column goes with that one. -/
def Touches (fk : ForeignKey) (source target : Schema) (found row : Row) (column : String) : Prop :=
  column ∈ fk.columns ∧ fk.Links source row target found

/-- A foreign key that still links a row after some columns became NULL has linked it before. -/
theorem Touches.of_lapsed {P : String → Prop} {column : String}
    (hlapsed : source.Lapsed P row row') (h : fk.Touches source target found row' column) :
    fk.Touches source target found row column :=
  ⟨h.1, hlapsed.agree h.2⟩

/-- In a row that lapses only the columns become NULL that the foreign key touches. -/
theorem lapsed_lapse (fk : ForeignKey) (source target : Schema) (found row : Row) :
    source.Lapsed (fk.Touches source target found row) row
      (fk.lapse source target found row) := by
  unfold lapse
  split
  · next hlinks =>
    exact (Schema.lapsed_clear fk.columns row).mono fun column hcolumn => ⟨hcolumn, hlinks⟩
  · exact .refl row

end ForeignKey

namespace Table

variable {t t' u target : Table} {found row : Row} {key : Cells} {gone : List Row}

/-- The row of a table after a row of the target has gone: the foreign keys to the target
that admit NULL are cleared one after another, as far as the row then is linked. -/
def lapseRow (u target : Table) (row found : Row) : Row :=
  (u.foreignKeys.filter fun fk => fk.table == target.name && fk.nullable).foldl
    (fun row fk => fk.lapse u.schema target.schema found row) row

/-- The table after rows of the target have gone one after another. -/
def after (u target : Table) (gone : List Row) : Table :=
  { u with rows := u.rows.map fun row => gone.foldl (u.lapseRow target) row }

/-- A table is as it was as long as no row of the target has gone. -/
theorem after_nil (u target : Table) : u.after target [] = u := by
  simp [after]

/-- The last row of the target goes after the others. -/
theorem after_concat (u target : Table) (gone : List Row) (found : Row) :
    (u.after target gone).after target [found] = u.after target (gone ++ [found]) := by
  simp only [after, List.map_map, List.foldl_append]
  rfl

/-- Clearing several foreign keys one after another does so to each row. -/
theorem nullReferencesThrough_eq_ok {fks : List ForeignKey} {n n' : Nat}
    (hdistinct : t.schema.Distinct) (hfits : ∀ fk ∈ fks, fk.Fits t.schema target)
    (hkey : target.cells found target.primaryKey = .ok key)
    (h : nullReferencesThrough key fks (t, n) = .ok (t', n')) :
    t' = { t with
      rows := t.rows.map fun row =>
        fks.foldl (fun row fk => fk.lapse t.schema target.schema found row) row } := by
  induction fks generalizing t n with
  | nil =>
    simp only [nullReferencesThrough, Except.ok.injEq, Prod.mk.injEq] at h
    simp [h.1]
  | cons fk fks ih =>
    rw [List.forall_mem_cons] at hfits
    obtain ⟨⟨s, k⟩, hs, h⟩ := bind_eq_ok_iff.mp h
    obtain ⟨hrest, _, hrows⟩ := nullReferences_eq_ok hdistinct hfits.1 hkey hs
    have hmap : s.rows = t.rows.map (fk.lapse t.schema target.schema found) := by
      rw [eq_comm, ← List.forall₂_eq_eq_eq, List.forall₂_map_left_iff]
      exact hrows.imp fun row row' hrow => hrow.eq_lapse.symm
    have hschema : s.schema = t.schema := by rw [hrest]
    rw [ih (hschema ▸ hdistinct) (hschema ▸ hfits.2) h, hrest, hmap, List.map_map]
    rfl

/-- Clearing the references to a key leaves the table as it is after the row of the key has
gone. -/
theorem cascadeNull_eq_ok {n : Nat} (hrefers : t.Referrer target)
    (hkey : target.cells found target.primaryKey = .ok key)
    (h : t.cascadeNull target.name key = .ok (t', n)) : t' = t.after target [found] :=
  nullReferencesThrough_eq_ok hrefers.distinct hrefers.fits_nullable hkey h

/-- The row may lose its value in the column with the given row of the target, because of a
foreign key that admits NULL. -/
def LapsesFor (u target : Table) (found row : Row) (column : String) : Prop :=
  ∃ fk ∈ u.foreignKeys, (fk.table = target.name ∧ fk.nullable = true) ∧
    fk.Touches u.schema target.schema found row column

/-- A column that may lose its value with one row of the target may lose it with the target. -/
theorem LapsesFor.lapsesWith {column : String} (h : u.LapsesFor target found row column) :
    u.LapsesWith target.name column := by
  obtain ⟨fk, hfk, ⟨htable, hnullable⟩, hcolumn, _⟩ := h
  exact ⟨fk, hfk, htable, hnullable, hcolumn⟩

/-- After a row of the target has gone only columns have become NULL that may lapse with it. -/
theorem lapsed_lapseRow (u target : Table) (found row : Row) :
    u.schema.Lapsed (u.LapsesFor target found row) row (u.lapseRow target row found) := by
  have hwalk := Schema.lapsed_foldl
    (fun (fk : ForeignKey) row => fk.lapsed_lapse u.schema target.schema found row)
    (fun fk Q row row' column hlapsed htouches => htouches.of_lapsed hlapsed)
    (u.foreignKeys.filter fun fk => fk.table == target.name && fk.nullable) row
  refine hwalk.mono ?_
  rintro column ⟨fk, hfk, htouches⟩
  obtain ⟨hfk, hcond⟩ := ForeignKey.mem_nullable_iff.mp hfk
  exact ⟨fk, hfk, hcond, htouches⟩

/-- A row lapses only for rows to which it was linked before any of them went. -/
theorem lapsed_foldl_lapseRow (u target : Table) (gone : List Row) (row : Row) :
    u.schema.Lapsed (fun column => ∃ found ∈ gone, u.LapsesFor target found row column) row
      (gone.foldl (u.lapseRow target) row) := by
  refine Schema.lapsed_foldl (u.lapsed_lapseRow target) ?_ gone row
  rintro found Q row row' column hlapsed ⟨fk, hfk, hcond, htouches⟩
  exact ⟨fk, hfk, hcond, htouches.of_lapsed hlapsed⟩

/-- After rows of the target have gone only columns have become NULL that may lapse with one of
them. -/
theorem forall₂_rows_after (u target : Table) (gone : List Row) :
    List.Forall₂ (fun row row' => u.schema.Lapsed
      (fun column => ∃ found ∈ gone, u.LapsesFor target found row column) row row')
      u.rows (u.after target gone).rows := by
  rw [after, List.forall₂_map_right_iff]
  exact List.forall₂_same.mpr fun row _ => u.lapsed_foldl_lapseRow target gone row

/-- When rows of the target go, only columns of foreign keys that admit NULL lapse. -/
theorem lapsed_after (u target : Table) (gone : List Row) :
    u.Lapsed (u.LapsesWith target.name) (u.after target gone) := by
  refine ⟨rfl, (u.forall₂_rows_after target gone).imp fun row row' hrow => hrow.mono ?_⟩
  rintro column ⟨found, _, hlapses⟩
  exact hlapses.lapsesWith

/-- A table without foreign keys to the target stays as it is. -/
theorem after_eq_self (h : ∀ fk ∈ u.foreignKeys, fk.table ≠ target.name) (gone : List Row) :
    u.after target gone = u := by
  have hnone : u.foreignKeys.filter (fun fk => fk.table == target.name && fk.nullable) = [] :=
    List.filter_eq_nil_iff.mpr fun fk hfk => by simp [h fk hfk]
  have hrow (row found : Row) : u.lapseRow target row found = row := by
    rw [lapseRow, hnone, List.foldl_nil]
  have hfold (row : Row) : gone.foldl (u.lapseRow target) row = row := by
    induction gone with
    | nil => rfl
    | cons found gone ih => rw [List.foldl_cons, hrow, ih]
  simp [after, hfold]

/-- What restricts a row after others have gone has restricted it before. -/
theorem Restricts.of_after (h : (u.after target gone).Restricts target found) :
    u.Restricts target found := by
  obtain ⟨fk, hfk, hcond, row', hrow', hlinks⟩ := h
  have hlapsed := u.lapsed_after target gone
  obtain ⟨row, hrow, hrowLapsed⟩ := hlapsed.rows.exists_left hrow'
  exact ⟨fk, hfk, hcond, row, hrow, hrowLapsed.agree hlinks⟩

/-- No foreign key to the target that admits NULL has a column in common with one that does
not. -/
def Separates (u target : Table) : Prop :=
  ∀ fk ∈ u.foreignKeys, fk.table = target.name → fk.nullable = false →
    ∀ column ∈ fk.columns, ¬ u.LapsesWith target.name column

/-- Where foreign keys are separated, rows that go do not change what restricts a row. -/
theorem Separates.restricts_after_iff (h : u.Separates target) :
    (u.after target gone).Restricts target found ↔ u.Restricts target found := by
  refine ⟨Restricts.of_after, ?_⟩
  rintro ⟨fk, hfk, hcond, row, hrow, hlinks⟩
  obtain ⟨row', hrow', hlapsed⟩ := (u.lapsed_after target gone).rows.exists_right hrow
  refine ⟨fk, hfk, hcond, row', hrow', hlinks.congr (fun column hcolumn => ?_) fun _ _ => rfl⟩
  refine (hlapsed.value? column).resolve_right fun hnull => ?_
  exact h fk hfk hcond.1 hcond.2 column hcolumn hnull.2

/-- The rows at some positions. -/
def rowsAt (t : Table) (positions : List Nat) : List Row :=
  positions.filterMap (t.rows[·]?)

end Table

namespace Deletion

variable {t : Table} {found : Row} {key : Cells} {referrers : List Table} {d d' : Deletion}
  {chosen : List (Row × Nat)} {entry : Row × Nat}

/-- The cascade to several tables does to each what a row that goes makes of it. -/
theorem cascade_eq_ok {state state' : List (Table × Bool)}
    (hrefers : ∀ x ∈ state, x.1.Referrer t) (hkey : t.cells found t.primaryKey = .ok key)
    (h : cascade t.name key state = .ok state') :
    state'.map Prod.fst = (state.map Prod.fst).map fun u => u.after t [found] := by
  induction state generalizing state' with
  | nil =>
    obtain rfl := Except.ok.inj h
    rfl
  | cons x state ih =>
    rw [List.forall_mem_cons] at hrefers
    simp only [cascade, bind_eq_ok_iff, pure_eq_ok_iff] at h
    obtain ⟨⟨r, n⟩, hr, others, hothers, rfl⟩ := h
    rw [List.map_cons, List.map_cons, List.map_cons, ih hrefers.2 hothers,
      Table.cascadeNull_eq_ok hrefers.1 hkey hr]

/-- What has been decided about the chosen rows: the referencing tables are as the rows that
go have left them, and a row stays exactly if one of them restricts it when its turn comes. -/
structure Decides (t : Table) (referrers : List Table) (chosen : List (Row × Nat))
    (d : Deletion) : Prop where
  left : d.referrers.map Prod.fst = referrers.map fun u => u.after t (t.rowsAt d.removed)
  removed : d.removed.Sublist (chosen.map Prod.snd)
  counted : d.removed.length + d.blocked = chosen.length
  decided : ∀ entry ∈ chosen, entry.2 ∉ d.removed ↔
    ∃ u ∈ referrers, (u.after t (t.rowsAt (d.removed.filter (· < entry.2)))).Restricts t entry.1

/-- A decision about the next row keeps those that have been made. -/
theorem Decides.step (hd : Decides t referrers chosen d) (hrefers : ∀ u ∈ referrers, u.Referrer t)
    (hne : t.primaryKey ≠ []) (hrow : t.rows[entry.2]? = some entry.1)
    (hlast : ∀ i ∈ chosen.map Prod.snd, i < entry.2) (h : d.decideRow t entry = .ok d') :
    Decides t referrers (chosen ++ [entry]) d' := by
  have hnonempty : t.primaryKey.isEmpty = false := List.isEmpty_eq_false_iff.mpr hne
  simp only [decideRow, hnonempty, Bool.false_eq_true, if_false, bind_eq_ok_iff,
    Failure.lift_eq_ok_iff] at h
  obtain ⟨key, hkey, restricted, hrestricted, h⟩ := h
  have hafter : ∀ u ∈ d.referrers.map Prod.fst, u.Referrer t := by
    rw [hd.left]
    intro u hu
    obtain ⟨r, hr, rfl⟩ := List.mem_map.mp hu
    exact (r.lapsed_after t _).referrer (hrefers r hr)
  have hbelow : ∀ i ∈ d.removed, i < entry.2 := fun i hi => hlast i (hd.removed.subset hi)
  have hall : d.removed.filter (· < entry.2) = d.removed :=
    List.filter_eq_self.mpr fun i hi => decide_eq_true (hbelow i hi)
  have hnew : entry.2 ∉ d.removed := fun hi => Nat.lt_irrefl _ (hbelow _ hi)
  have hturn : restricted = true ↔
      ∃ u ∈ referrers, (u.after t (t.rowsAt d.removed)).Restricts t entry.1 := by
    rw [Table.anyRestricts_eq_ok hafter hkey hrestricted, hd.left]
    simp only [List.mem_map, exists_exists_and_eq_and]
  cases restricted with
  | true =>
    -- the row is blocked, and nothing changes but the count
    simp only [if_true, pure_eq_ok_iff] at h
    subst h
    refine ⟨hd.left, ?_, ?_, ?_⟩
    · rw [List.map_append]
      exact hd.removed.trans (List.sublist_append_left _ _)
    · have hcounted := hd.counted
      simp only [List.length_append, List.length_singleton]
      omega
    · rw [List.forall_mem_append, List.forall_mem_singleton]
      refine ⟨hd.decided, ?_⟩
      rw [hall]
      exact iff_of_true hnew (hturn.mp rfl)
  | false =>
    simp only [Bool.false_eq_true, if_false, bind_eq_ok_iff, pure_eq_ok_iff] at h
    obtain ⟨state, hcascade, rfl⟩ := h
    -- the row goes, and stands behind all rows that were decided about before
    refine ⟨?_, ?_, ?_, ?_⟩
    · have hrows : t.rowsAt (d.removed ++ [entry.2]) = t.rowsAt d.removed ++ [entry.1] := by
        simp [Table.rowsAt, hrow]
      rw [cascade_eq_ok (List.forall_mem_map.mp hafter) hkey hcascade, hd.left,
        List.map_map, hrows]
      exact List.map_congr_left fun u _ => u.after_concat t _ _
    · rw [List.map_append]
      exact hd.removed.append (List.Sublist.refl _)
    · have hcounted := hd.counted
      simp only [List.length_append, List.length_singleton]
      omega
    · rw [List.forall_mem_append, List.forall_mem_singleton]
      refine ⟨fun old hold => ?_, ?_⟩
      · have hearlier : old.2 < entry.2 := hlast old.2 (List.mem_map_of_mem hold)
        have hother : old.2 ≠ entry.2 := Nat.ne_of_lt hearlier
        have hdecided := hd.decided old hold
        have hsame : (d.removed ++ [entry.2]).filter (· < old.2) =
            d.removed.filter (· < old.2) := by
          rw [List.filter_append, List.filter_cons_of_neg (by simpa using Nat.le_of_lt hearlier),
            List.filter_nil, List.append_nil]
        rw [hsame, ← hdecided]
        simp [hother]
      · have hsame : (d.removed ++ [entry.2]).filter (· < entry.2) = d.removed := by
          rw [List.filter_append, hall]
          simp
        rw [hsame, ← hturn]
        simp

/-- All decisions one after another, if the rows come in the order of their positions. -/
theorem decides_of_foldlM (hrefers : ∀ u ∈ referrers, u.Referrer t) (hne : t.primaryKey ≠ [])
    (hrows : ∀ entry ∈ chosen, t.rows[entry.2]? = some entry.1)
    (hascending : (chosen.map Prod.snd).Pairwise (· < ·))
    (h : chosen.foldlM (decideRow t) ⟨referrers.map fun r => (r, false), [], 0⟩ = .ok d) :
    Decides t referrers chosen d := by
  induction chosen using List.reverseRecOn generalizing d with
  | nil =>
    obtain rfl := pure_eq_ok_iff.mp h
    refine ⟨?_, List.Sublist.refl _, rfl, by simp⟩
    simp only [List.map_map]
    exact List.map_congr_left fun u _ => (u.after_nil t).symm
  | append_singleton chosen entry ih =>
    rw [List.foldlM_append, bind_eq_ok_iff] at h
    obtain ⟨before, hbefore, h⟩ := h
    rw [List.forall_mem_append, List.forall_mem_singleton] at hrows
    rw [List.map_append, List.pairwise_append] at hascending
    obtain ⟨hascending, _, hlast⟩ := hascending
    have hstep : before.decideRow t entry = .ok d := by
      simpa only [List.foldlM_cons, List.foldlM_nil, bind_pure] using h
    exact (ih hrows.1 hascending hbefore).step hrefers hne hrows.2
      (fun i hi => hlast i hi entry.2 (by simp)) hstep

/-- The positions of some chosen rows are as many as the chosen rows at these positions. -/
theorem length_eq_filter_mem {removed : List Nat}
    (hascending : (chosen.map Prod.snd).Pairwise (· < ·))
    (hremoved : removed.Sublist (chosen.map Prod.snd)) :
    removed.length = (chosen.filter fun entry => entry.2 ∈ removed).length := by
  have hnodup : (chosen.map Prod.snd).Nodup := hascending.imp Nat.ne_of_lt
  have hperm : removed.Perm ((chosen.filter fun entry => entry.2 ∈ removed).map Prod.snd) := by
    refine (List.perm_ext_iff_of_nodup (hnodup.sublist hremoved)
      (hnodup.sublist (List.filter_sublist.map _))).mpr fun i => ?_
    simp only [List.mem_map, List.mem_filter, decide_eq_true_eq]
    constructor
    · intro hi
      obtain ⟨entry, hentry, rfl⟩ := List.mem_map.mp (hremoved.subset hi)
      exact ⟨entry, ⟨hentry, hi⟩, rfl⟩
    · rintro ⟨entry, ⟨_, hi⟩, rfl⟩
      exact hi
  rw [hperm.length_eq, List.length_map]

variable {p : Row → Bool} {R : Row → Prop} [DecidablePred R]

/-- A row that is not chosen does not go. -/
theorem not_mem_of_not_chosen {removed : List Nat}
    (hchosen : chosen = t.rows.zipIdx.filter fun entry => p entry.1)
    (hremoved : removed.Sublist (chosen.map Prod.snd)) (hentry : entry ∈ t.rows.zipIdx)
    (hp : ¬ p entry.1 = true) : entry.2 ∉ removed := by
  intro hmem
  obtain ⟨other, hother, hsame⟩ := List.mem_map.mp (hremoved.subset hmem)
  rw [hchosen, List.mem_filter] at hother
  have hrow := List.mem_zipIdx_iff_getElem?.mp hother.1
  rw [hsame, List.mem_zipIdx_iff_getElem?.mp hentry] at hrow
  exact hp (Option.some.inj hrow ▸ hother.2)

/-- If it depends on the row alone whether a chosen row stays, so do the rows that remain. -/
theorem Decides.rows_withoutRows (hd : Decides t referrers chosen d)
    (hchosen : chosen = t.rows.zipIdx.filter fun entry => p entry.1)
    (hkept : ∀ entry ∈ chosen, entry.2 ∉ d.removed ↔ R entry.1) :
    (t.withoutRows d.removed).rows = t.rows.filter fun row => !p row || R row := by
  rw [Condition.filter_eq_map_zipIdx t.rows, Table.withoutRows]
  refine congrArg (List.map Prod.fst) (List.filter_congr fun entry hentry => ?_)
  have hiff : entry ∈ chosen ↔ p entry.1 = true := by
    rw [hchosen, List.mem_filter, and_iff_right hentry]
  by_cases hp : p entry.1 = true
  · have hstays := hkept entry (hiff.mpr hp)
    simp [hp, ← hstays]
  · have hstays := not_mem_of_not_chosen hchosen hd.removed hentry hp
    simp [hp, hstays]

/-- If the rows that stay are those of a property, as many have gone as are chosen without it. -/
theorem Decides.length_removed (hd : Decides t referrers chosen d)
    (hchosen : chosen = t.rows.zipIdx.filter fun entry => p entry.1)
    (hascending : (chosen.map Prod.snd).Pairwise (· < ·))
    (hkept : ∀ entry ∈ chosen, entry.2 ∉ d.removed ↔ R entry.1) :
    d.removed.length = (t.rows.filter fun row => p row && !R row).length := by
  have hgoes : (chosen.filter fun entry => entry.2 ∈ d.removed) =
      chosen.filter fun entry => !R entry.1 := by
    refine List.filter_congr fun entry hentry => ?_
    rw [← decide_not, decide_eq_decide, ← hkept entry hentry, not_not]
  rw [length_eq_filter_mem hascending hd.removed, hgoes,
    Condition.filter_eq_map_zipIdx t.rows, List.length_map, hchosen, List.filter_filter]
  simp only [Bool.and_comm]

end Deletion

/-- A deletion from a table with a primary key takes out the rows on which it decides so. -/
theorem Table.delete_decides {t t' : Table} {condition : Option Condition} {read : TableReader}
    {d : Deletion} (hne : t.primaryKey ≠ []) (h : t.delete condition read = .ok (t', d)) :
    ∃ chosen referrers, Condition.matching condition t.schema t.rows = .ok chosen ∧
      t.referrers read = .ok referrers ∧
      ((∀ u ∈ referrers, u.Referrer t) → Deletion.Decides t referrers chosen d) := by
  simp only [Table.delete, bind_eq_ok_iff, Failure.lift_eq_ok_iff, pure_eq_ok_iff,
    Prod.mk.injEq] at h
  obtain ⟨chosen, hchosen, referrers, hreferrers, d, hd, rfl, rfl⟩ := h
  refine ⟨chosen, referrers, hchosen, hreferrers, fun hrefers => ?_⟩
  exact Deletion.decides_of_foldlM hrefers hne
    (fun entry hentry => Condition.getElem?_of_mem_matching hchosen hentry)
    (Condition.pairwise_of_matching hchosen) hd

end RelationalStore
