import RelationalStore.Proofs.Table.Cascade
import RelationalStore.Proofs.Table.Reading

/-!
# What a deletion leaves behind

A deletion decides about the chosen rows one by one, and each decision is made on what
the earlier ones have left of the referencing tables. What holds after every decision is
this: the referencing tables are the stored ones after some cells have become NULL, and
no row of theirs is linked to a row that goes.
-/

namespace RelationalStore

namespace Deletion

variable {t : Table} {found : Row} {key : Cells}

/-- The referencing tables of a deletion come from the given ones by cells that became
NULL, and are not linked to the rows that go. -/
structure Follows (t : Table) (referrers : List Table) (d : Deletion) : Prop where
  referrers : List.Forall₂ (fun r x => r.Lapsed (r.LapsesWith t.name) x.1 ∧ (x.2 = false → x.1 = r))
    referrers d.referrers
  unlinked : ∀ i ∈ d.removed, ∀ found, t.rows[i]? = some found → ∀ x ∈ d.referrers,
    ∀ fk ∈ x.1.foreignKeys, fk.table = t.name → x.1.Unlinked fk t.schema found

/-- Before the first decision the referencing tables are as given, and no row goes. -/
theorem follows_start (t : Table) (referrers : List Table) :
    Follows t referrers ⟨referrers.map fun r => (r, false), [], 0⟩ := by
  refine ⟨?_, by simp⟩
  rw [List.forall₂_map_right_iff]
  exact List.forall₂_same.mpr fun r _ => ⟨.refl r, fun _ => rfl⟩

/-- The cascade goes to each referencing table. -/
theorem cascade_unlinked {state state' : List (Table × Bool)}
    (hrefers : ∀ x ∈ state, x.1.Referrer t) (hne : t.primaryKey ≠ [])
    (hkey : t.cells found t.primaryKey = .ok key)
    (h : cascade t.name key state = .ok state') :
    List.Forall₂ (fun x x' => x.1.Lapsed (x.1.LapsesWith t.name) x'.1 ∧
      (x'.2 = false → x.2 = false ∧ x'.1 = x.1) ∧
      ∀ fk ∈ x.1.foreignKeys, fk.table = t.name → fk.nullable = true →
        x'.1.Unlinked fk t.schema found) state state' := by
  induction state generalizing state' with
  | nil =>
    simp only [cascade, Except.ok.injEq] at h
    exact h ▸ .nil
  | cons x state ih =>
    rw [List.forall_mem_cons] at hrefers
    simp only [cascade, bind_eq_ok_iff, pure_eq_ok_iff] at h
    obtain ⟨⟨r, n⟩, hr, others, hothers, rfl⟩ := h
    obtain ⟨hlapsed, hzero, hunlinked⟩ := Table.cascadeNull_unlinked hrefers.1 hne hkey hr
    refine .cons ⟨hlapsed, fun hflag => ?_, hunlinked⟩ (ih hrefers.2 hothers)
    simp only [Bool.or_eq_false_iff, decide_eq_false_iff_not, Nat.not_lt, Nat.le_zero] at hflag
    exact ⟨hflag.1, hzero hflag.2⟩

/-- The tables that follow a deletion have foreign keys that fit as before. -/
theorem Follows.referrer {referrers : List Table} {d : Deletion} (hd : Follows t referrers d)
    (hrefers : ∀ r ∈ referrers, r.Referrer t) : ∀ x ∈ d.referrers, x.1.Referrer t := by
  intro x hx
  obtain ⟨r, hr, hlapsed, _⟩ := hd.referrers.exists_left hx
  exact hlapsed.referrer (hrefers r hr)

/-- When a row goes that no reference restricts, the cascade unlinks it from all others. -/
theorem Follows.cascade {referrers : List Table} {d : Deletion} {i : Nat}
    {state : List (Table × Bool)} (hd : Follows t referrers d)
    (hrefers : ∀ r ∈ referrers, r.Referrer t) (hne : t.primaryKey ≠ [])
    (hrow : t.rows[i]? = some found) (hkey : t.cells found t.primaryKey = .ok key)
    (hfree : Table.anyRestricts t.name key (d.referrers.map Prod.fst) = .ok false)
    (hcascade : Deletion.cascade t.name key d.referrers = .ok state) :
    Follows t referrers { d with referrers := state, removed := d.removed ++ [i] } := by
  have hstate := hd.referrer hrefers
  have hstep := cascade_unlinked hstate hne hkey hcascade
  have hfree := Table.anyRestricts_unlinked (List.forall_mem_map.mpr hstate) hkey hfree
  refine ⟨hd.referrers.trans hstep fun r x x' hx hx' => ⟨?_, fun hflag => ?_⟩, ?_⟩
  · refine hx.1.trans (hx'.1.mono fun column hcolumn => ?_)
    unfold Table.LapsesWith at hcolumn ⊢
    rwa [hx.1.foreignKeys_eq] at hcolumn
  · rw [(hx'.2.1 hflag).2, hx.2 (hx'.2.1 hflag).1]
  · intro j hj row hj' x' hx' fk hfk htable
    obtain ⟨x, hx, hlapsed, _, hnulled⟩ := hstep.exists_left hx'
    rw [hlapsed.foreignKeys_eq] at hfk
    rcases List.mem_append.mp hj with hj | hj
    · exact hlapsed.unlinked (hd.unlinked j hj row hj' x hx fk hfk htable)
    · rw [List.mem_singleton.mp hj, hrow] at hj'
      obtain rfl := Option.some.inj hj'
      cases hnullable : fk.nullable with
      | true => exact hnulled fk hfk htable hnullable
      | false =>
        exact hlapsed.unlinked (hfree x.1 (List.mem_map_of_mem hx) fk hfk htable hnullable)

/-- A decision about one row keeps what the decisions before it have established. -/
theorem Follows.decideRow {referrers : List Table} {d d' : Deletion} {entry : Row × Nat}
    (hd : Follows t referrers d) (hrefers : ∀ r ∈ referrers, r.Referrer t)
    (hkeyless : t.primaryKey = [] → referrers = []) (hentry : t.rows[entry.2]? = some entry.1)
    (h : d.decideRow t entry = .ok d') : Follows t referrers d' := by
  unfold Deletion.decideRow at h
  split at h
  · next hempty =>
    -- without a primary key no table was read, so nothing can be linked to any row
    obtain rfl := hkeyless (List.isEmpty_iff.mp hempty)
    simp only [Except.ok.injEq] at h
    subst h
    have hnone : d.referrers = [] := List.forall₂_nil_left_iff.mp hd.referrers
    exact ⟨hd.referrers, by simp [hnone]⟩
  · next hnonempty =>
    have hne : t.primaryKey ≠ [] := fun hnil => hnonempty (List.isEmpty_iff.mpr hnil)
    simp only [bind_eq_ok_iff, Failure.lift_eq_ok_iff] at h
    obtain ⟨key, hkey, restricted, hrestricted, h⟩ := h
    cases restricted with
    | true =>
      simp only [if_true, pure_eq_ok_iff] at h
      subst h
      exact ⟨hd.referrers, hd.unlinked⟩
    | false =>
      simp only [Bool.false_eq_true, if_false, bind_eq_ok_iff, pure_eq_ok_iff] at h
      obtain ⟨state, hcascade, rfl⟩ := h
      exact hd.cascade hrefers hne hentry hkey hrestricted hcascade

end Deletion

namespace Table

variable {t t' : Table} {read : TableReader}

/-- The rows that remain are those at the positions that are not removed. -/
theorem mem_withoutRows_iff {removed : List Nat} {row : Row} :
    row ∈ (t.withoutRows removed).rows ↔ ∃ i, t.rows[i]? = some row ∧ i ∉ removed := by
  simp only [withoutRows, List.mem_map, List.mem_filter, Prod.exists,
    List.mem_zipIdx_iff_getElem?]
  constructor
  · rintro ⟨r, i, ⟨hr, hi⟩, rfl⟩
    exact ⟨i, hr, by simpa using hi⟩
  · rintro ⟨i, hr, hi⟩
    exact ⟨row, i, ⟨hr, by simpa using hi⟩, rfl⟩

/-- A table without the rows at no position is as it was. -/
theorem withoutRows_nil : t.withoutRows [] = t := by
  simp [withoutRows]

/-- The rows that remain stand in the order in which they stood. -/
theorem withoutRows_sublist (t : Table) (removed : List Nat) :
    (t.withoutRows removed).rows.Sublist t.rows := by
  have hsublist : (t.rows.zipIdx.filter fun entry => !removed.contains entry.2).Sublist
      t.rows.zipIdx := List.filter_sublist
  simpa [withoutRows] using hsublist.map Prod.fst

/-- A sound table stays so when rows of it go. -/
theorem Sound.withoutRows (h : t.Sound) (removed : List Nat) : (t.withoutRows removed).Sound := by
  have hsublist := t.withoutRows_sublist removed
  exact { h with
    admits := fun row hrow => h.admits row (hsublist.subset hrow)
    keys_differ := fun hne => (h.keys_differ hne).sublist hsublist }

/-- Without a primary key no table is looked at. -/
theorem referrers_eq_nil {referrers : List Table} (h : t.referrers read = .ok referrers)
    (hnil : t.primaryKey = []) : referrers = [] := by
  simpa [Table.referrers, hnil, eq_comm] using h

/-- A deletion that succeeds takes rows out of the table and follows the tables that
reference it. -/
theorem delete_eq_ok {condition : Option Condition} {d : Deletion}
    (h : t.delete condition read = .ok (t', d)) :
    t' = t.withoutRows d.removed ∧ ∃ referrers, t.referrers read = .ok referrers ∧
      ((∀ r ∈ referrers, r.Referrer t) → Deletion.Follows t referrers d) := by
  simp only [delete, bind_eq_ok_iff, Failure.lift_eq_ok_iff, pure_eq_ok_iff, Prod.mk.injEq] at h
  obtain ⟨chosen, hchosen, referrers, hreferrers, d, hd, rfl, rfl⟩ := h
  refine ⟨rfl, referrers, hreferrers, fun hrefers => ?_⟩
  refine foldlM_preserves (P := Deletion.Follows t referrers) (fun entry hentry d d' hd h => ?_)
    (Deletion.follows_start t referrers) hd
  exact hd.decideRow hrefers (referrers_eq_nil hreferrers)
    (Condition.getElem?_of_mem_matching hchosen hentry) h

end Table

end RelationalStore
