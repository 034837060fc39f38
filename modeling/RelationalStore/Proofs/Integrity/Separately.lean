import Mathlib.Algebra.GroupWithZero.Nat
import RelationalStore.Proofs.Catalog.Simulation
import RelationalStore.Proofs.Integrity.Expelled
import RelationalStore.Proofs.Integrity.Refusals

/-!
# Rows that are deleted separately

A deletion reads the referencing tables once, goes through all chosen rows and only then
stores what has changed. Where the table has a primary key, the same comes of it as of
separate deletions of the chosen rows, each of which reads and stores everything anew: its
condition is true of one row alone, and it decides about this row as the one deletion has
decided when the row's turn came.
-/

namespace RelationalStore

namespace TableMap

variable {tables : TableMap} {t : Table} {found : Row} {condition : Option Condition}

/-- A deletion succeeds as soon as its rows can be chosen. -/
theorem Sound.exists_delete (h : tables.Sound) (hfind : tables.find t.name = some t)
    {chosen : List (Row × Nat)}
    (hchosen : Condition.matching condition t.schema t.rows = .ok chosen) :
    ∃ t' d, t.delete condition tables.read = .ok (t', d) := by
  have hnever : FailsOnly (fun _ => False) (t.delete condition tables.read) := by
    refine (h.delete_failsOnly hfind condition).mono ?_
    rintro _ ⟨e, c, row, rfl, rfl, hrow, he⟩
    obtain ⟨truth, htruth⟩ := Condition.exists_evaluate_of_matching hchosen hrow
    rw [htruth] at he
    cases he
  obtain ⟨⟨t', d⟩, hdelete⟩ := hnever.exists_ok
  exact ⟨t', d, hdelete⟩

/-- By its primary key exactly one row is chosen. -/
theorem Sound.matching_key (h : tables.Sound) (hfind : tables.find t.name = some t)
    (hne : t.primaryKey ≠ []) {i : Nat} (hrow : t.rows[i]? = some found) {key : Cells}
    (hkey : t.cells found t.primaryKey = .ok key) :
    Condition.matching (Condition.conjunction key) t.schema t.rows = .ok [(found, i)] := by
  have ht := h.sound t.name t hfind
  have hfound := List.mem_of_getElem? hrow
  obtain ⟨entries, hentries⟩ := ht.exists_matching_key (ht.admits found hfound) hkey
  have hmem (entry : Row × Nat) : entry ∈ entries ↔ entry ∈ [(found, i)] := by
    obtain ⟨row, j⟩ := entry
    rw [Condition.mem_matching_conjunction_iff ht.distinct hentries, Table.holdIn_key_iff hkey,
      List.mem_singleton, Prod.mk.injEq]
    constructor
    · rintro ⟨hj, hsame⟩
      obtain rfl : i = j := by
        by_contra hij
        exact ht.not_sameKey hne hij hrow hj hsame
      exact ⟨Option.some.inj (hj.symm.trans hrow), rfl⟩
    · rintro ⟨rfl, rfl⟩
      exact ⟨hrow, ht.sameKey_self hfound⟩
  have hnodup : entries.Nodup :=
    List.Nodup.of_map Prod.snd ((Condition.pairwise_of_matching hentries).imp Nat.ne_of_lt)
  have hperm := (List.perm_ext_iff_of_nodup hnodup (List.nodup_singleton _)).mpr hmem
  rw [hentries, List.perm_singleton.mp hperm]

/-- The deletion of one row by its primary key decides about this row alone. -/
theorem Sound.delete_key (h : tables.Sound) (hfind : tables.find t.name = some t)
    (hne : t.primaryKey ≠ []) (hfound : found ∈ t.rows) {key : Cells}
    (hkey : t.cells found t.primaryKey = .ok key) :
    ∃ t' d, t.delete (Condition.conjunction key) tables.read = .ok (t', d) ∧
      (t.RestrictedAfter tables.read [] found ∧ d.removed = [] ∧ d.blocked = 1 ∨
        ¬ t.RestrictedAfter tables.read [] found ∧ d.removed.length = 1 ∧
          t.rowsAt d.removed = [found] ∧ d.blocked = 0) := by
  obtain ⟨i, hrow⟩ := List.getElem?_of_mem hfound
  have hmatching := h.matching_key hfind hne hrow hkey
  obtain ⟨t', d, hdelete⟩ := h.exists_delete hfind hmatching
  refine ⟨t', d, hdelete, ?_⟩
  obtain ⟨chosen, referrers, hchosen, hd, hdecided⟩ := h.exists_chosen hfind hne hdelete
  obtain rfl := Except.ok.inj (hmatching.symm.trans hchosen)
  have hcounted := hd.counted
  have hdecided := hdecided (found, i) List.mem_cons_self
  rcases List.sublist_singleton.mp hd.removed with hremoved | hremoved
  · rw [hremoved] at hcounted hdecided
    exact .inl ⟨hdecided.mp List.not_mem_nil, hremoved, by simpa using hcounted⟩
  · rw [hremoved] at hcounted hdecided
    have hnone : [i].filter (· < i) = [] := by simp
    simp only [hnone] at hdecided
    refine .inr ⟨fun hrestricted => ?_, by rw [hremoved]; rfl, ?_, by simpa using hcounted⟩
    · exact hdecided.mpr hrestricted List.mem_cons_self
    · rw [hremoved]
      simp [Table.rowsAt, hrow]

end TableMap

namespace TableStore

variable {c c' : TableStore Memory} {tables : TableMap} {t : Table} {gone rows going : List Row}
  {found : Row} {condition : Option Condition} {key : Cells} {keys : List Cells} {name : String}
  {blocked : Nat}

/-- Rows of one of the tables have gone, and the catalog holds what is left. -/
structure Expelled (c : TableStore Memory) (tables : TableMap) (t : Table) (gone : List Row) :
    Prop where
  holds : Holds c (tables.expel t gone)
  fits : c.FitsMemory
  sound : (tables.expel t gone).Sound

/-- At first no row has gone. -/
theorem Holds.expelled (h : Holds c tables) (hfits : c.FitsMemory) (hsound : tables.Sound)
    (hfind : tables.find t.name = some t) : Expelled c tables t [] := by
  have hsame := TableMap.expel_nil hfind
  exact ⟨hsame.symm ▸ h, hfits, hsame.symm ▸ hsound⟩

/-- The deletion of one more row by its primary key leaves the row if it is restricted then,
and otherwise the row goes. -/
theorem Expelled.delete_key (h : Expelled c tables t gone) (hintegral : tables.Integral)
    (hfind : tables.find t.name = some t) (hne : t.primaryKey ≠ []) (hfound : found ∈ t.rows)
    (hnew : found ∉ gone) (hkey : t.cells found t.primaryKey = .ok key) :
    ∃ c', (t.RestrictedAfter tables.read gone found ∧
        (Statement.delete t.name (Condition.conjunction key)).execute c =
          (.ok (.deleted 0 1), c') ∧ Expelled c' tables t gone) ∨
      (¬ t.RestrictedAfter tables.read gone found ∧
        (Statement.delete t.name (Condition.conjunction key)).execute c =
          (.ok (.deleted 1 0), c') ∧ Expelled c' tables t (gone ++ [found])) := by
  have hself : (tables.expel t gone).find (t.without gone).name = some (t.without gone) :=
    TableMap.find_expel_self
  have hthere : found ∈ (t.without gone).rows := by simp [Table.without, hfound, hnew]
  obtain ⟨t', d, hdelete, hcases⟩ := h.sound.delete_key hself hne hthere hkey
  obtain ⟨c', hexecute, hholds⟩ := h.holds.executeDelete h.fits hself hdelete
  have hsound := h.sound.delete hself hdelete
  have hfits := h.holds.fitsMemory_of_deleted h.fits hself (h.sound.deleted hself hdelete) hholds
  rw [h.sound.delete_eq_expel hself hne hdelete] at hholds hsound
  rw [hintegral.restrictedAfter_expel_iff hfind] at hcases
  refine ⟨c', hcases.imp ?_ ?_⟩
  · rintro ⟨hrestricted, hremoved, hblocked⟩
    have hnone : (t.without gone).rowsAt d.removed = [] := by rw [hremoved]; rfl
    rw [hnone, TableMap.expel_nil hself] at hholds hsound
    rw [hremoved, hblocked] at hexecute
    exact ⟨hrestricted, hexecute, hholds, hfits, hsound⟩
  · rintro ⟨hfree, hremoved, hrow, hblocked⟩
    rw [hrow, TableMap.expel_concat] at hholds hsound
    rw [hremoved, hblocked] at hexecute
    exact ⟨hfree, hexecute, hholds, hfits, hsound⟩

/-- The deletions of rows one by one, each by the cells of its primary key. -/
def separately (name : String) (keys : List Cells) : List CatalogRequest :=
  keys.map fun key => .execute (.delete name (Condition.conjunction key))

/-- The answers to deletions that succeed, each with how many rows it has deleted and how many
it has blocked. -/
def deletedEach (counts : List (Nat × Nat)) : List CatalogAnswer :=
  counts.map fun count => .executed (.ok (.deleted count.1 count.2))

/-- The first of several deletions is made, and the others in the catalog that it leaves. -/
theorem performAll_separately_cons {deleted kept : Nat} {counts : List (Nat × Nat)}
    {last : TableStore Memory}
    (hfirst : (Statement.delete name (Condition.conjunction key)).execute c =
      (.ok (.deleted deleted kept), c'))
    (hrest : CatalogRequest.performAll c' (separately name keys) = (deletedEach counts, last)) :
    CatalogRequest.performAll c (separately name (key :: keys)) =
      (deletedEach ((deleted, kept) :: counts), last) := by
  simp only [separately, List.map_cons, CatalogRequest.performAll, CatalogRequest.perform,
    hfirst]
  rw [separately] at hrest
  rw [hrest, deletedEach, deletedEach, List.map_cons]

/-- Separate deletions let go of the rows that go when they are decided about in turn. -/
theorem Expelled.performAll (hsettles : t.Settles tables.read gone rows going blocked)
    (h : Expelled c tables t gone) (hintegral : tables.Integral)
    (hfind : tables.find t.name = some t) (hne : t.primaryKey ≠ [])
    (hrows : ∀ row ∈ rows, row ∈ t.rows) (hnodup : (gone ++ rows).Nodup)
    (hkeys : List.Forall₂ (fun row key => t.cells row t.primaryKey = .ok key) rows keys) :
    ∃ counts last, CatalogRequest.performAll c (separately t.name keys) =
        (deletedEach counts, last) ∧ (counts.map Prod.fst).sum = going.length ∧
      (counts.map Prod.snd).sum = blocked ∧ Expelled last tables t (gone ++ going) := by
  induction hsettles generalizing c keys with
  | nil =>
    obtain rfl := List.forall₂_nil_left_iff.mp hkeys
    exact ⟨[], c, rfl, rfl, rfl, by rwa [List.append_nil]⟩
  | @goes gone rows going found blocked hfree _ ih =>
    obtain ⟨key, others, hkey, hothers, rfl⟩ := List.forall₂_cons_left_iff.mp hkeys
    rw [List.forall_mem_cons] at hrows
    have hnew : found ∉ gone := fun hmem =>
      List.disjoint_of_nodup_append hnodup hmem List.mem_cons_self
    obtain ⟨c', ⟨hrestricted, _⟩ | ⟨_, hexecute, hnext⟩⟩ :=
      h.delete_key hintegral hfind hne hrows.1 hnew hkey
    · exact absurd hrestricted hfree
    · rw [List.append_cons] at hnodup
      obtain ⟨counts, last, hrest, hdeleted, hblocked, hlast⟩ :=
        ih hnext hrows.2 hnodup hothers
      refine ⟨(1, 0) :: counts, last, performAll_separately_cons hexecute hrest, ?_, ?_, ?_⟩
      · rw [List.map_cons, List.sum_cons, hdeleted, List.length_cons, Nat.add_comm]
      · rw [List.map_cons, List.sum_cons, hblocked, Nat.zero_add]
      · rwa [List.append_cons]
  | @stays gone rows going found blocked hrestricted _ ih =>
    obtain ⟨key, others, hkey, hothers, rfl⟩ := List.forall₂_cons_left_iff.mp hkeys
    rw [List.forall_mem_cons] at hrows
    have hnew : found ∉ gone := fun hmem =>
      List.disjoint_of_nodup_append hnodup hmem List.mem_cons_self
    obtain ⟨c', ⟨_, hexecute, hnext⟩ | ⟨hfree, _⟩⟩ :=
      h.delete_key hintegral hfind hne hrows.1 hnew hkey
    · have hnodup := hnodup.sublist ((List.sublist_cons_self found rows).append_left gone)
      obtain ⟨counts, last, hrest, hdeleted, hblocked, hlast⟩ :=
        ih hnext hrows.2 hnodup hothers
      refine ⟨(0, 1) :: counts, last, performAll_separately_cons hexecute hrest, ?_, ?_, hlast⟩
      · rw [List.map_cons, List.sum_cons, hdeleted, Nat.zero_add]
      · rw [List.map_cons, List.sum_cons, hblocked, Nat.add_comm]
    · exact absurd hrestricted hfree

/-- In a reachable catalog, a deletion from a table with a primary key by a condition that can
be told on every row succeeds. It comes to the same as the deletions of the chosen rows one by
one, in the order in which they are stored and each by the values of its primary key: these
delete and block as many rows in all, and the same bytes are stored after them. -/
theorem Reachable.delete_separately (h : Reachable c) (ht : Catalog.load c name = .ok (some t))
    (hkey : t.primaryKey ≠ []) {chosen : List (Row × Nat)}
    (hchosen : Condition.matching condition t.schema t.rows = .ok chosen) :
    ∃ (deleted blocked : Nat) (c' : TableStore Memory) (keys : List Cells)
      (counts : List (Nat × Nat)) (last : TableStore Memory),
      (Statement.delete name condition).execute c = (.ok (.deleted deleted blocked), c') ∧
      chosen.mapM (fun entry => t.cells entry.1 t.primaryKey) = .ok keys ∧
      CatalogRequest.performAll c (keys.map fun key =>
          .execute (.delete name (Condition.conjunction key))) =
        (counts.map fun count => .executed (.ok (.deleted count.1 count.2)), last) ∧
      deleted = (counts.map Prod.fst).sum ∧ blocked = (counts.map Prod.snd).sum ∧
      ∀ k, ByteStore.get last.store k = ByteStore.get c'.store k := by
  obtain ⟨tables, hholds, hsound⟩ := h.sound
  have hfind := (hholds.load_eq_some_iff h.fitsMemory).mp ht
  obtain rfl := tables.named name t hfind
  have hsoundTable := hsound.sound t.name t hfind
  obtain ⟨t', d, hdelete⟩ := hsound.exists_delete hfind hchosen
  obtain ⟨c', hexecute, hnext⟩ := hholds.executeDelete h.fitsMemory hfind hdelete
  rw [hsound.delete_eq_expel hfind hkey hdelete] at hnext
  obtain ⟨hsettles, hremoved⟩ := hsound.delete_settles hfind hkey hchosen hdelete
  have hstored := Condition.sublist_of_matching hchosen
  obtain ⟨keys, hkeys⟩ : ∃ keys, chosen.mapM (fun entry => t.cells entry.1 t.primaryKey) =
      .ok keys := by
    refine (FailsOnly.mapM fun entry hentry => ?_).exists_ok
    have hrow := hstored.subset (List.mem_map_of_mem hentry)
    exact .of_exists_ok (Table.exists_cells (hsoundTable.admits _ hrow) hsoundTable.key_defined)
  obtain ⟨counts, last, hperformed, hdeleted, hblocked, hlast⟩ :=
    (hholds.expelled h.fitsMemory hsound hfind).performAll hsettles hsound.toIntegral hfind hkey
      (fun row hrow => hstored.subset hrow) ((hsoundTable.nodup_rows hkey).sublist hstored)
      (List.forall₂_map_left_iff.mpr (mapM_eq_ok_iff.mp hkeys))
  exact ⟨_, _, c', keys, counts, last, hexecute, hkeys, hperformed,
    (hdeleted.trans hremoved).symm, hblocked.symm, hnext.get_eq hlast.holds⟩

/-- Of two rows the first one stays, and of their deletions one by one the first blocks it and
the second deletes the other. -/
theorem delete_separately_sample :
    ∃ (keys : List Cells) (counts : List (Nat × Nat)) (last : TableStore Memory),
      keys.length = 2 ∧ (counts.map Prod.fst).sum = 1 ∧ (counts.map Prod.snd).sum = 1 ∧
      CatalogRequest.performAll (pairsIn pairRows.reverse) (separately "pair" keys) =
        (deletedEach counts, last) ∧
      ByteStore.get last.store (keyOf "pair") =
        .ok (some (Binary.write (pairTable [[.integer 2, .integer 3]]))) := by
  have hchosen : Condition.matching none (pairTable pairRows.reverse).schema
      (pairTable pairRows.reverse).rows = .ok (pairTable pairRows.reverse).rows.zipIdx := rfl
  obtain ⟨deleted, blocked, c', keys, counts, last, hdelete, hkeys, hperformed, hdeleted, hblocked,
    hsame⟩ := reachable_pairsIn.delete_separately load_pairsIn (List.cons_ne_nil _ _) hchosen
  have hresult := delete_pairsIn
  have hstored : ByteStore.get
      ((Statement.delete "pair" none).execute (pairsIn pairRows.reverse)).2.store (keyOf "pair") =
        .ok (some (Binary.write (pairTable [[.integer 2, .integer 3]]))) := by decide +kernel
  rw [hdelete] at hresult hstored
  obtain ⟨rfl, rfl⟩ := Outcome.deleted.inj (Except.ok.inj hresult)
  refine ⟨keys, counts, last, (mapM_eq_ok_iff.mp hkeys).length_eq.symm, hdeleted.symm,
    hblocked.symm, hperformed, (hsame _).trans hstored⟩

end TableStore

end RelationalStore
