import RelationalStore.Proofs.Integrity.Cascades

/-!
# Tables after rows have gone

Chosen rows are decided about in turn, and each decision looks at the tables as the rows that
have gone before have left them. In a table with a primary key no row is stored twice, so that
these tables are told by the rows alone: neither their positions nor the statements by which
they have gone make a difference.
-/

namespace RelationalStore

namespace Table

variable {t u : Table} {read : TableReader} {gone gone' rows going : List Row} {found : Row}
  {blocked : Nat}

/-- The table without some of its rows. -/
def without (t : Table) (gone : List Row) : Table :=
  { t with rows := t.rows.filter fun row => !gone.contains row }

/-- A table from which no row has gone is as it was. -/
theorem without_nil : t.without [] = t := by
  simp [without]

/-- Rows may be taken out in two steps. -/
theorem without_append : (t.without gone).without gone' = t.without (gone ++ gone') := by
  simp [without, List.filter_filter, Bool.and_comm]

/-- Where no row is stored twice, the rows tell what is left without their positions. -/
theorem withoutRows_eq_without (hnodup : t.rows.Nodup) (removed : List Nat) :
    t.withoutRows removed = t.without (t.rowsAt removed) := by
  rw [withoutRows, without, Condition.filter_eq_map_zipIdx t.rows]
  refine congrArg (fun rows => { t with rows := rows }) (congrArg (List.map Prod.fst) ?_)
  refine List.filter_congr fun entry hentry => congrArg not ?_
  have hat : t.rows[entry.2]? = some entry.1 := List.mem_zipIdx_iff_getElem?.mp hentry
  rw [Bool.eq_iff_iff, List.contains_iff_mem, List.contains_iff_mem, rowsAt, List.mem_filterMap]
  constructor
  · exact fun hremoved => ⟨entry.2, hremoved, hat⟩
  · rintro ⟨i, hi, hsame⟩
    obtain ⟨hbound, _⟩ := List.getElem?_eq_some_iff.mp hat
    rwa [(List.getElem?_inj hbound hnodup).mp (hat.trans hsame.symm)]

/-- The rows are decided about in turn. Each of them goes, unless it is restricted when those
before it have gone that were to go. -/
inductive Settles (t : Table) (read : TableReader) :
    List Row → List Row → List Row → Nat → Prop
  | nil {gone : List Row} : Settles t read gone [] [] 0
  | goes {gone rows going : List Row} {found : Row} {blocked : Nat}
      (hfree : ¬ t.RestrictedAfter read gone found)
      (hrest : Settles t read (gone ++ [found]) rows going blocked) :
      Settles t read gone (found :: rows) (found :: going) blocked
  | stays {gone rows going : List Row} {found : Row} {blocked : Nat}
      (hrestricted : t.RestrictedAfter read gone found)
      (hrest : Settles t read gone rows going blocked) :
      Settles t read gone (found :: rows) going (blocked + 1)

/-- Every row goes or is counted as blocked. -/
theorem Settles.counted (h : t.Settles read gone rows going blocked) :
    going.length + blocked = rows.length := by
  induction h with
  | nil => rfl
  | goes _ _ ih =>
    rw [List.length_cons, List.length_cons]
    omega
  | stays _ _ ih =>
    rw [List.length_cons]
    omega

/-- Decisions that are made by the positions of the rows are made about the rows in turn. -/
theorem settles_of_positions {entries : List (Row × Nat)} {before later : List Nat}
    (hrows : ∀ entry ∈ entries, t.rows[entry.2]? = some entry.1)
    (hascending : (entries.map Prod.snd).Pairwise (· < ·))
    (hlater : later.Sublist (entries.map Prod.snd))
    (hdecided : ∀ entry ∈ entries, entry.2 ∉ later ↔
      t.RestrictedAfter read (t.rowsAt (before ++ later.filter (· < entry.2))) entry.1) :
    t.Settles read (t.rowsAt before) (entries.map Prod.fst) (t.rowsAt later)
      (entries.length - later.length) := by
  induction entries generalizing before later with
  | nil =>
    obtain rfl := List.sublist_nil.mp hlater
    exact .nil
  | cons entry entries ih =>
    rw [List.forall_mem_cons] at hrows hdecided
    obtain ⟨hbelow, hascending⟩ := List.pairwise_cons.mp hascending
    obtain ⟨hentry, hdecided⟩ := hdecided
    -- the rows that go later stand behind this one
    have hfront {l : List Nat} (hl : l.Sublist (entries.map Prod.snd)) :
        entry.2 ∉ l ∧ l.filter (· < entry.2) = [] := by
      refine ⟨fun hmem => Nat.lt_irrefl _ (hbelow _ (hl.subset hmem)), ?_⟩
      refine List.filter_eq_nil_iff.mpr fun i hi => ?_
      have hlt := hbelow i (hl.subset hi)
      simp only [decide_eq_true_eq]
      omega
    cases hlater with
    | cons _ hlater =>
      obtain ⟨hnew, hnone⟩ := hfront hlater
      have hrestricted := hentry.mp hnew
      rw [hnone, List.append_nil] at hrestricted
      have hcount : (entry :: entries).length - later.length =
          entries.length - later.length + 1 := by
        have hle := hlater.length_le
        rw [List.length_map] at hle
        rw [List.length_cons]
        omega
      rw [hcount]
      exact .stays hrestricted (ih hrows.2 hascending hlater hdecided)
    | @cons_cons later _ _ hlater =>
      obtain ⟨hnew, hnone⟩ := hfront hlater
      have hfree : ¬ t.RestrictedAfter read (t.rowsAt before) entry.1 := by
        intro hrestricted
        rw [List.filter_cons_of_neg (by simp), hnone, List.append_nil] at hentry
        exact hentry.mpr hrestricted List.mem_cons_self
      have hgoing : t.rowsAt (entry.2 :: later) = entry.1 :: t.rowsAt later := by
        rw [rowsAt, List.filterMap_cons_some hrows.1, rowsAt]
      have hgone : t.rowsAt (before ++ [entry.2]) = t.rowsAt before ++ [entry.1] := by
        simp [rowsAt, hrows.1]
      rw [hgoing, List.length_cons, List.length_cons, Nat.add_sub_add_right]
      refine .goes hfree (hgone ▸ ih hrows.2 hascending hlater fun other hother => ?_)
      have hlt : entry.2 < other.2 := hbelow other.2 (List.mem_map_of_mem hother)
      have hdecided := hdecided other hother
      rwa [List.filter_cons_of_pos (by simpa using hlt), List.append_cons, List.mem_cons,
        not_or, and_iff_right (Nat.ne_of_gt hlt)] at hdecided

end Table

namespace TableMap

variable {tables : TableMap} {t t' : Table} {d : Deletion} {gone : List Row} {found : Row}
  {condition : Option Condition} {name : String}

/-- The tables after rows of one of them have gone one after another. -/
def expel (tables : TableMap) (t : Table) (gone : List Row) : TableMap where
  find name :=
    if name = t.name then some (t.without gone)
    else (tables.find name).map fun u => u.after t gone
  named name u h := by
    split at h
    · next hname => exact Option.some.inj h ▸ hname.symm
    · obtain ⟨v, hv, rfl⟩ := Option.map_eq_some_iff.mp h
      exact tables.named name v hv

/-- The table whose rows have gone is found without them. -/
theorem find_expel_self : (tables.expel t gone).find t.name = some (t.without gone) :=
  if_pos rfl

/-- Every other table is found as the cascades of the rows have left it. -/
theorem find_expel_of_ne (hname : name ≠ t.name) :
    (tables.expel t gone).find name = (tables.find name).map fun u => u.after t gone :=
  if_neg hname

/-- As long as no row has gone the tables are as they were. -/
theorem expel_nil (hfind : tables.find t.name = some t) : tables.expel t [] = tables := by
  ext1
  funext name
  by_cases hname : name = t.name
  · subst hname
    rw [find_expel_self, Table.without_nil, hfind]
  · rw [find_expel_of_ne hname]
    simp [Table.after_nil]

/-- One more row goes. -/
theorem expel_concat : (tables.expel t gone).expel (t.without gone) [found] =
    tables.expel t (gone ++ [found]) := by
  ext1
  funext name
  by_cases hname : name = t.name
  · subst hname
    rw [find_expel_self]
    exact find_expel_self.trans (congrArg some Table.without_append)
  · have hleft : name ≠ (t.without gone).name := hname
    rw [find_expel_of_ne hleft, find_expel_of_ne hname, find_expel_of_ne hname, Option.map_map]
    exact congrFun (congrArg Option.map (funext fun u => u.after_concat t gone found)) _

/-- A deletion from a table with a primary key leaves the tables that the rows tell which have
gone. -/
theorem Sound.delete_eq_expel (h : tables.Sound) (hfind : tables.find t.name = some t)
    (hne : t.primaryKey ≠ []) (hdelete : t.delete condition tables.read = .ok (t', d)) :
    (if d.removed.isEmpty then tables.saveAll d.changed
      else (tables.saveAll d.changed).save t') = tables.expel t (t.rowsAt d.removed) := by
  have hnodup := (h.sound t.name t hfind).nodup_rows hne
  ext1
  funext name
  by_cases hname : name = t.name
  · subst hname
    rw [(h.deleted hfind hdelete).shrunk, find_expel_self, Table.withoutRows_eq_without hnodup]
  · rw [h.find_deleted hfind hne hdelete hname, find_expel_of_ne hname]

/-- A deletion from a table with a primary key decides about the chosen rows in turn. -/
theorem Sound.delete_settles (h : tables.Sound) (hfind : tables.find t.name = some t)
    (hne : t.primaryKey ≠ []) {chosen : List (Row × Nat)}
    (hchosen : Condition.matching condition t.schema t.rows = .ok chosen)
    (hdelete : t.delete condition tables.read = .ok (t', d)) :
    t.Settles tables.read [] (chosen.map Prod.fst) (t.rowsAt d.removed) d.blocked ∧
      (t.rowsAt d.removed).length = d.removed.length := by
  obtain ⟨chosen', referrers, hchosen', hd, hdecided⟩ := h.exists_chosen hfind hne hdelete
  obtain rfl := Except.ok.inj (hchosen.symm.trans hchosen')
  have hrows : ∀ entry ∈ chosen, t.rows[entry.2]? = some entry.1 :=
    fun entry hentry => Condition.getElem?_of_mem_matching hchosen hentry
  have hsettles := @Table.settles_of_positions t tables.read chosen [] d.removed hrows
    (Condition.pairwise_of_matching hchosen) hd.removed hdecided
  have hcounted := hd.counted
  have hall := hsettles.counted
  rw [List.length_map] at hall
  have hblocked : chosen.length - d.removed.length = d.blocked := by omega
  rw [hblocked] at hsettles
  exact ⟨hsettles, by omega⟩

/-- After rows have gone, a row is restricted by the tables as they are then. -/
theorem Integral.restrictedAfter_expel_iff (h : tables.Integral)
    (hfind : tables.find t.name = some t) :
    (t.without gone).RestrictedAfter (tables.expel t gone).read [] found ↔
      t.RestrictedAfter tables.read gone found := by
  have hself : ∀ fk ∈ t.foreignKeys, fk.table ≠ t.name :=
    fun fk hfk => (h.targets t.name t hfind fk hfk).1
  constructor
  · rintro ⟨name, u, hu, hrestricts⟩
    have hu := read_eq_some_iff.mp hu
    rw [Table.after_nil] at hrestricts
    by_cases hname : name = t.name
    · subst hname
      obtain rfl := Option.some.inj (find_expel_self.symm.trans hu)
      obtain ⟨fk, hfk, ⟨htable, _⟩, _⟩ := hrestricts
      exact absurd htable (hself fk hfk)
    · rw [find_expel_of_ne hname, Option.map_eq_some_iff] at hu
      obtain ⟨v, hv, rfl⟩ := hu
      exact ⟨name, v, read_eq_some_iff.mpr hv, hrestricts⟩
  · rintro ⟨name, u, hu, hrestricts⟩
    have hu := read_eq_some_iff.mp hu
    have hname : name ≠ t.name := by
      rintro rfl
      obtain rfl := Option.some.inj (hfind.symm.trans hu)
      obtain ⟨fk, hfk, ⟨htable, _⟩, _⟩ := hrestricts
      exact hself fk hfk htable
    refine ⟨name, u.after t gone, read_eq_some_iff.mpr ?_, ?_⟩
    · rw [find_expel_of_ne hname, hu, Option.map_some]
    · rw [Table.after_nil]
      exact hrestricts

end TableMap

/-- Cells that become NULL take no more bytes than before. -/
theorem Schema.Lapsed.length_write_le {schema : Schema} {P : String → Prop} {row row' : Row}
    (h : schema.Lapsed P row row') : (Binary.write row').length ≤ (Binary.write row).length := by
  refine Binary.length_write_le_of_forall₂
    (List.forall₂_iff_get.mpr ⟨h.length_eq, fun i hi' hi => ?_⟩)
  rw [List.get_eq_getElem, List.get_eq_getElem]
  rcases h.cell i with hsame | ⟨hnull, _⟩
  · rw [List.getElem?_eq_getElem hi', List.getElem?_eq_getElem hi] at hsame
    rw [Option.some.inj hsame]
  · rw [List.getElem?_eq_getElem hi'] at hnull
    rw [Option.some.inj hnull]
    exact Binary.length_write_null_le _

namespace TableStore

variable {c c' : TableStore Memory} {tables tables' : TableMap} {t : Table} {removed : List Nat}

/-- A deletion leaves no table with a longer form than before. -/
theorem Holds.fitsMemory_of_deleted (h : Holds c tables) (hfits : c.FitsMemory)
    (hfind : tables.find t.name = some t) (hdeleted : tables.Deleted tables' t removed)
    (h' : Holds c' tables') : c'.FitsMemory := by
  refine h.fitsMemory_of_length_le hfits h' fun name u' hu' => ?_
  obtain ⟨u, hu, _⟩ := (hdeleted.sameButRows hfind).back name u' hu'
  refine ⟨u, hu, ?_⟩
  by_cases hname : name = t.name
  · subst hname
    obtain rfl := Option.some.inj (hfind.symm.trans hu)
    obtain rfl := Option.some.inj (hdeleted.shrunk.symm.trans hu')
    refine Binary.length_write_le_of_rows ?_
    exact Binary.length_write_le_of_sublist (t.withoutRows_sublist removed)
  · obtain ⟨v, hv, hlapsed, _⟩ := hdeleted.lapsed name u hname hu
    obtain rfl := Option.some.inj (hv.symm.trans hu')
    rw [hlapsed.rest]
    refine Binary.length_write_le_of_rows (Binary.length_write_le_of_forall₂ ?_)
    exact hlapsed.rows.flip.imp fun row' row hrow => hrow.length_write_le

end TableStore

end RelationalStore
