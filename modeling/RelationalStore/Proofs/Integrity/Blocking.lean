import RelationalStore.Proofs.Integrity.Runs
import RelationalStore.Proofs.Table.Blocking

/-!
# Blocked rows among all tables

Which chosen rows a deletion keeps is told here by the tables that are stored before it. A
row is kept exactly if one of these restricts it when its turn comes, after the chosen rows
before it have gone or stayed. The earlier rows matter only where a foreign key that admits
NULL has a column in common with one that does not. Otherwise the rows are kept that were
restricted before, and the order in which rows are stored makes no difference.
-/

namespace RelationalStore

namespace Table

variable {t : Table} {read read' : TableReader} {found : Row} {gone rows : List Row}

/-- A table that is read restricts the row after other rows have gone. -/
def RestrictedAfter (t : Table) (read : TableReader) (gone : List Row) (found : Row) : Prop :=
  ∃ name u, read name = .ok (some u) ∧ (u.after t gone).Restricts t found

/-- In all tables that are read, the foreign keys that admit NULL are separated from those
that do not. -/
def Separated (t : Table) (read : TableReader) : Prop :=
  ∀ name u, read name = .ok (some u) → u.Separates t

/-- A row that is still restricted after others have gone was so before. -/
theorem RestrictedAfter.before (h : t.RestrictedAfter read gone found) :
    t.RestrictedAfter read [] found := by
  obtain ⟨name, u, hu, hrestricts⟩ := h
  exact ⟨name, u, hu, (u.after_nil t).symm ▸ hrestricts.of_after⟩

/-- With separated foreign keys the rows that have gone make no difference to what is
restricted. -/
theorem Separated.restrictedAfter_iff (h : t.Separated read) :
    t.RestrictedAfter read gone found ↔ t.RestrictedAfter read [] found := by
  refine ⟨RestrictedAfter.before, ?_⟩
  rintro ⟨name, u, hu, hrestricts⟩
  rw [u.after_nil] at hrestricts
  exact ⟨name, u, hu, (h name u hu).restricts_after_iff.mpr hrestricts⟩

/-- What is read is the same but for the rows of one table, which does not reference
itself. -/
structure SameButRowsOf (t : Table) (read read' : TableReader) (rows : List Row) : Prop where
  stored : read' t.name = .ok (some { t with rows := rows })
  others : ∀ name, name ≠ t.name → read' name = read name
  elsewhere : ∀ fk ∈ t.foreignKeys, fk.table ≠ t.name

/-- Other rows of the same table restrict no row of it, and neither do the rows it had. -/
theorem SameButRowsOf.restrictedAfter (h : t.SameButRowsOf read read' rows)
    (hrestricted : RestrictedAfter { t with rows := rows } read' [] found) :
    t.RestrictedAfter read [] found := by
  obtain ⟨name, u, hu, hrestricts⟩ := hrestricted
  rw [u.after_nil] at hrestricts
  have hname : name ≠ t.name := by
    rintro rfl
    obtain rfl := Option.some.inj (Except.ok.inj (h.stored.symm.trans hu))
    obtain ⟨fk, hfk, ⟨htable, _⟩, _⟩ := hrestricts
    exact h.elsewhere fk hfk htable
  refine ⟨name, u, (h.others name hname).symm.trans hu, ?_⟩
  rw [u.after_nil]
  exact hrestricts

/-- The rows may as well be put back. -/
theorem SameButRowsOf.symm (h : t.SameButRowsOf read read' rows)
    (hread : read t.name = .ok (some t)) :
    SameButRowsOf { t with rows := rows } read' read t.rows :=
  ⟨hread, fun name hname => (h.others name hname).symm, h.elsewhere⟩

/-- Which foreign keys are separated does not depend on the rows of a table. -/
theorem SameButRowsOf.separated (h : t.SameButRowsOf read read' rows) (hsep : t.Separated read) :
    Separated { t with rows := rows } read' := by
  intro name u hu fk hfk htable hnullable
  have hname : name ≠ t.name := by
    rintro rfl
    obtain rfl := Option.some.inj (Except.ok.inj (h.stored.symm.trans hu))
    exact h.elsewhere fk hfk htable
  exact hsep name u ((h.others name hname).symm.trans hu) fk hfk htable hnullable

end Table

namespace TableMap

variable {tables : TableMap} {t t' : Table} {d : Deletion} {found : Row} {gone : List Row}
  {condition : Option Condition}

/-- The tables that a deletion looks at are all that can restrict a row. -/
theorem Sound.exists_referrer_iff (h : tables.Sound) (hfind : tables.find t.name = some t)
    (hne : t.primaryKey ≠ []) {referrers : List Table}
    (hreferrers : t.referrers tables.read = .ok referrers) :
    (∃ u ∈ referrers, (u.after t gone).Restricts t found) ↔
      t.RestrictedAfter tables.read gone found := by
  obtain ⟨_, hkept, hall⟩ := h.referrers_eq_ok hfind hreferrers
  constructor
  · rintro ⟨u, hu, hrestricts⟩
    exact ⟨u.name, u, read_eq_some_iff.mpr (hkept u hu).1, hrestricts⟩
  · rintro ⟨name, u, hu, fk, hfk, hcond, hlinked⟩
    have hu := read_eq_some_iff.mp hu
    exact ⟨u, hall name u hne hu ⟨u, hu, fk, hfk, hcond.1⟩, fk, hfk, hcond, hlinked⟩

/-- A deletion from a table with a primary key decides about the chosen rows by the tables
before it. -/
theorem Sound.exists_chosen (h : tables.Sound) (hfind : tables.find t.name = some t)
    (hne : t.primaryKey ≠ []) (hdelete : t.delete condition tables.read = .ok (t', d)) :
    ∃ chosen referrers, Condition.matching condition t.schema t.rows = .ok chosen ∧
      Deletion.Decides t referrers chosen d ∧
      ∀ entry ∈ chosen, entry.2 ∉ d.removed ↔
        t.RestrictedAfter tables.read (t.rowsAt (d.removed.filter (· < entry.2))) entry.1 := by
  obtain ⟨chosen, referrers, hchosen, hreferrers, hdecides⟩ := Table.delete_decides hne hdelete
  obtain ⟨_, hkept, _⟩ := h.referrers_eq_ok hfind hreferrers
  have hd := hdecides fun u hu => h.referrer hfind (hkept u hu).1
  exact ⟨chosen, referrers, hchosen, hd, fun entry hentry =>
    (hd.decided entry hentry).trans (h.exists_referrer_iff hfind hne hreferrers)⟩

/-- Where foreign keys are separated, the rows that remain, the number of rows that go and
the number of chosen rows are told by the rows alone, without their positions. -/
theorem Sound.deleted_separated [DecidablePred (t.RestrictedAfter tables.read [])]
    (h : tables.Sound) (hfind : tables.find t.name = some t) (hne : t.primaryKey ≠ [])
    (hdelete : t.delete condition tables.read = .ok (t', d))
    (hsep : t.Separated tables.read) :
    (t.withoutRows d.removed).rows = (t.rows.filter fun row =>
        !Condition.picks condition t.schema row || t.RestrictedAfter tables.read [] row) ∧
      d.removed.length = (t.rows.filter fun row =>
        Condition.picks condition t.schema row && !t.RestrictedAfter tables.read [] row).length ∧
      d.removed.length + d.blocked =
        (t.rows.filter (Condition.picks condition t.schema)).length := by
  obtain ⟨chosen, referrers, hmatching, hd, hdecided⟩ := h.exists_chosen hfind hne hdelete
  have hchosen := Condition.matching_eq_ok hmatching
  have hkept : ∀ entry ∈ chosen, entry.2 ∉ d.removed ↔
      t.RestrictedAfter tables.read [] entry.1 :=
    fun entry hentry => (hdecided entry hentry).trans hsep.restrictedAfter_iff
  refine ⟨hd.rows_withoutRows hchosen hkept,
    hd.length_removed hchosen (Condition.pairwise_of_matching hmatching) hkept, ?_⟩
  rw [hd.counted, hchosen, Condition.filter_eq_map_zipIdx t.rows, List.length_map]

/-- Where foreign keys are separated, the same rows go whatever the order in which they are
stored. -/
theorem Sound.deleted_perm {tables' : TableMap} {u' : Table} {d' : Deletion} {rows : List Row}
    (h : tables.Sound) (h' : tables'.Sound) (hfind : tables.find t.name = some t)
    (hfind' : tables'.find (Table.name { t with rows := rows }) = some { t with rows := rows })
    (hsame : ∀ name, name ≠ t.name → tables'.read name = tables.read name)
    (hne : t.primaryKey ≠ []) (hperm : rows.Perm t.rows) (hsep : t.Separated tables.read)
    (hdelete : t.delete condition tables.read = .ok (t', d))
    (hdelete' : Table.delete { t with rows := rows } condition tables'.read = .ok (u', d')) :
    d'.removed.length = d.removed.length ∧ d'.blocked = d.blocked ∧
      (Table.withoutRows { t with rows := rows } d'.removed).rows.Perm
        (t.withoutRows d.removed).rows := by
  classical
  have hreads : t.SameButRowsOf tables.read tables'.read rows :=
    ⟨read_eq_some_iff.mpr hfind', hsame, fun fk hfk => (h.targets t.name t hfind fk hfk).1⟩
  have hback := hreads.symm (read_eq_some_iff.mpr hfind)
  have hrestricted : ∀ row, Table.RestrictedAfter { t with rows := rows } tables'.read [] row ↔
      t.RestrictedAfter tables.read [] row :=
    fun row => ⟨hreads.restrictedAfter, hback.restrictedAfter⟩
  obtain ⟨hleft, hgone, htotal⟩ := h.deleted_separated hfind hne hdelete hsep
  obtain ⟨hleft', hgone', htotal'⟩ :=
    h'.deleted_separated hfind' (t := { t with rows := rows }) hne hdelete' (hreads.separated hsep)
  simp only [hrestricted] at hleft' hgone'
  have hremoved : d'.removed.length = d.removed.length := by
    rw [hgone, hgone']
    exact (hperm.filter _).length_eq
  have hchosen : d'.removed.length + d'.blocked = d.removed.length + d.blocked := by
    rw [htotal, htotal']
    exact (hperm.filter _).length_eq
  refine ⟨hremoved, by omega, ?_⟩
  rw [hleft, hleft']
  exact hperm.filter _

end TableMap

namespace TableStore

variable {c c' : TableStore Memory} {tables : TableMap} {name : String} {t : Table}
  {condition : Option Condition}

/-- A deletion that succeeds is one of the table, and it is stored. -/
theorem executeDelete_eq_ok {outcome : Outcome} (h : Holds c tables) (hfits : c.FitsMemory)
    (hdelete : (Statement.delete name condition).execute c = (.ok outcome, c')) :
    ∃ t t' d, tables.find name = some t ∧ t.delete condition tables.read = .ok (t', d) ∧
      outcome = .deleted d.removed.length d.blocked ∧
      Holds c' (if d.removed.isEmpty then tables.saveAll d.changed
        else (tables.saveAll d.changed).save t') := by
  rcases @executeDelete_cases c tables name condition h hfits with
    ⟨f, hfails⟩ | ⟨t, t', d, c', hfind, hdeleted, hexecute, hholds⟩
  · rw [hfails] at hdelete
    cases hdelete
  · obtain ⟨houtcome, rfl⟩ := Prod.mk.inj (hexecute.symm.trans hdelete)
    exact ⟨t, t', d, hfind, hdeleted, (Except.ok.inj houtcome).symm, hholds⟩

/-- In a reachable catalog a deletion that succeeds is one of sound tables, and the table
without the rows that go is stored. -/
theorem Reachable.exists_deletion (h : Reachable c) (ht : Catalog.load c name = .ok (some t))
    {deleted blocked : Nat} (hdelete : (Statement.delete name condition).execute c =
      (.ok (.deleted deleted blocked), c')) :
    ∃ (tables : TableMap) (t' : Table) (d : Deletion),
      Catalog.load c = tables.read ∧ tables.Sound ∧
      tables.find t.name = some t ∧ t.name = name ∧
      t.delete condition tables.read = .ok (t', d) ∧
      deleted = d.removed.length ∧ blocked = d.blocked ∧
      ByteStore.get c'.store (keyOf name) = .ok (some (Binary.write (t.withoutRows d.removed))) := by
  obtain ⟨tables, hholds, hsound⟩ := h.sound
  obtain ⟨u, t', d, hu, hdeleted, houtcome, hnext⟩ :=
    executeDelete_eq_ok hholds h.fitsMemory hdelete
  have hfind := (hholds.load_eq_some_iff h.fitsMemory).mp ht
  obtain rfl := Option.some.inj (hfind.symm.trans hu)
  obtain rfl := tables.named name t hfind
  obtain ⟨rfl, rfl⟩ := Outcome.deleted.inj houtcome
  have hshrunk := (hsound.deleted hfind hdeleted).shrunk
  refine ⟨tables, t', d, hholds.load_eq_read h.fitsMemory, hsound, hfind, rfl, hdeleted, rfl, rfl,
    ?_⟩
  have hform := hnext.forms t.name
  rw [hshrunk, Option.map_some] at hform
  exact congrArg Except.ok hform

/-- In a reachable catalog, a deletion from a table with a primary key decides about the
chosen rows in the order in which they are stored. A chosen row stays, and is counted as
blocked, exactly if a stored table then restricts it, in which the references to the rows
that have gone before have become NULL. So a row that stays was restricted before the
statement. Conversely, where no foreign key that admits NULL shares a column with one that
does not, all chosen rows stay that were restricted before the statement. Which rows stay
does then not depend on the order in which they are stored. -/
theorem Reachable.blocked_iff_restricted (h : Reachable c)
    (ht : Catalog.load c name = .ok (some t)) (hkey : t.primaryKey ≠ []) {deleted blocked : Nat}
    (hdelete : (Statement.delete name condition).execute c =
      (.ok (.deleted deleted blocked), c')) :
    ∃ (chosen : List (Row × Nat)) (removed : List Nat),
      Condition.matching condition t.schema t.rows = .ok chosen ∧
      removed.Sublist (chosen.map Prod.snd) ∧
      deleted = removed.length ∧ deleted + blocked = chosen.length ∧
      ByteStore.get c'.store (keyOf name) = .ok (some (Binary.write (t.withoutRows removed))) ∧
      (∀ entry ∈ chosen, entry.2 ∉ removed ↔ t.RestrictedAfter (Catalog.load c)
        (t.rowsAt (removed.filter (· < entry.2))) entry.1) ∧
      (∀ entry ∈ chosen, entry.2 ∉ removed → t.RestrictedAfter (Catalog.load c) [] entry.1) ∧
      (t.Separated (Catalog.load c) →
        (∀ entry ∈ chosen, entry.2 ∉ removed ↔
          t.RestrictedAfter (Catalog.load c) [] entry.1) ∧
        ∀ (other other' : TableStore Memory) (rows : List Row) (deleted' blocked' : Nat),
          Reachable other → rows.Perm t.rows →
          Catalog.load other name = .ok (some { t with rows := rows }) →
          (∀ n, n ≠ name → Catalog.load other n = Catalog.load c n) →
          (Statement.delete name condition).execute other =
            (.ok (.deleted deleted' blocked'), other') →
          deleted' = deleted ∧ blocked' = blocked ∧
            ∃ left : List Row, left.Perm (t.withoutRows removed).rows ∧
              ByteStore.get other'.store (keyOf name) =
                .ok (some (Binary.write { t with rows := left }))) := by
  obtain ⟨tables, t', d, hload, hsound, hfind, rfl, hdeleted, rfl, rfl, hstored⟩ :=
    h.exists_deletion ht hdelete
  obtain ⟨chosen, referrers, hchosen, hd, hdecided⟩ := hsound.exists_chosen hfind hkey hdeleted
  rw [hload]
  refine ⟨chosen, d.removed, hchosen, hd.removed, rfl, hd.counted, hstored, hdecided,
    fun entry hentry hstays => ((hdecided entry hentry).mp hstays).before, fun hsep => ⟨?_, ?_⟩⟩
  · exact fun entry hentry => (hdecided entry hentry).trans hsep.restrictedAfter_iff
  · intro other other' rows deleted' blocked' hother hperm hrows hsame hdelete'
    obtain ⟨tables', u', d', hload', hsound', hfind', _, hdeleted', rfl, rfl, hstored'⟩ :=
      hother.exists_deletion hrows hdelete'
    rw [hload'] at hsame
    obtain ⟨hcount, hblocked, hleft⟩ := hsound.deleted_perm hsound' hfind hfind' hsame hkey hperm
      hsep hdeleted hdeleted'
    exact ⟨hcount, hblocked, _, hleft, hstored'⟩

/-- A catalog in which the one row of a table references two rows of another, through two
foreign keys that share a column. The first of them admits NULL and the second does not. -/
def pairsIn (rows : List (List Value)) : TableStore Memory :=
  run ⟨Memory.empty⟩
    ([.createTable "pair" [.plain "x" .integer, .plain "y" .integer] [.primaryKey ["x", "y"]],
      .createTable "link"
        [.plain "a" .integer, .plain "b" .integer, (ColumnDefinition.plain "c" .integer).notNull]
        [.foreignKey ["a", "b"] "pair" ["x", "y"], .foreignKey ["b", "c"] "pair" ["x", "y"]]] ++
      rows.map (.insert "pair" none) ++
      [.insert "link" none [.integer 1, .integer 2, .integer 3]])

/-- The table of the pairs, with its rows in some order. -/
def pairTable (rows : List Row) : Table where
  name := "pair"
  schema :=
    [{ Attribute.plain "x" .integer 0 true with table := "pair" }.asPrimary,
      { Attribute.plain "y" .integer 0 true with table := "pair" }.asPrimary]
  rows := rows
  primaryKey := ["x", "y"]
  foreignKeys := []
  referencedBy := NameSet.ofNames ["link"]

/-- The table of the links. -/
def linkTable : Table where
  name := "link"
  schema :=
    [({ Attribute.plain "a" .integer 0 true with table := "link" }).referencing "pair" "x",
      ({ Attribute.plain "b" .integer 0 true with table := "link" }).referencing "pair" "x",
      ({ Attribute.plain "c" .integer 0 false with table := "link" }).referencing "pair" "y"]
  rows := [[.integer 1, .integer 2, .integer 3]]
  primaryKey := []
  foreignKeys := [⟨["a", "b"], "pair", ["x", "y"], true⟩, ⟨["b", "c"], "pair", ["x", "y"], false⟩]
  referencedBy := SortedMap.empty

/-- The two rows that are referenced. -/
def pairRows : List Row :=
  [[.integer 1, .integer 2], [.integer 2, .integer 3]]

/-- The pairs are stored in the order in which they are inserted. -/
theorem pairsIn_eq : ∀ rows ∈ [pairRows, pairRows.reverse], pairsIn rows =
    Catalog.save (Catalog.save ⟨Memory.empty⟩ (pairTable rows)) linkTable := by
  decide +kernel

/-- This catalog comes about by statements that fit in memory. -/
theorem reachable_pairsIn : Reachable (pairsIn pairRows.reverse) :=
  Reachable.empty.run (by decide +kernel)

/-- The table of the pairs is stored as it is written here. -/
theorem load_pairsIn :
    Catalog.load (pairsIn pairRows.reverse) "pair" = .ok (some (pairTable pairRows.reverse)) := by
  rw [pairsIn_eq pairRows.reverse (by simp)]
  decide +kernel

/-- One of the rows is deleted and the other one is blocked. -/
theorem delete_pairsIn : ((Statement.delete "pair" none).execute (pairsIn pairRows.reverse)).1 =
    .ok (.deleted 1 1) := by
  rw [pairsIn_eq pairRows.reverse (by simp)]
  decide +kernel

/-- Of the two rows the one goes that is referenced through the foreign key that admits NULL,
if it is stored behind the other one. -/
theorem blocked_iff_restricted_sample :
    ∃ (chosen : List (Row × Nat)) (removed : List Nat),
      Condition.matching none (pairTable pairRows.reverse).schema
        (pairTable pairRows.reverse).rows = .ok chosen ∧
      chosen.length = 2 ∧ removed.length = 1 ∧
      ByteStore.get ((Statement.delete "pair" none).execute (pairsIn pairRows.reverse)).2.store
        (keyOf "pair") =
          .ok (some (Binary.write ((pairTable pairRows.reverse).withoutRows removed))) := by
  have hdelete : (Statement.delete "pair" none).execute (pairsIn pairRows.reverse) =
      (.ok (.deleted 1 1), ((Statement.delete "pair" none).execute (pairsIn pairRows.reverse)).2) := by
    rw [← delete_pairsIn, Prod.mk.eta]
  obtain ⟨chosen, removed, hchosen, _, hcount, htotal, hstored, _⟩ :=
    reachable_pairsIn.blocked_iff_restricted load_pairsIn (List.cons_ne_nil _ _) hdelete
  exact ⟨chosen, removed, hchosen, htotal.symm, hcount.symm, hstored⟩

/-- With the rows in the other order both go, although one of them was referenced through a
foreign key without NULL before the statement. -/
theorem restricted_not_blocked :
    Reachable (pairsIn pairRows) ∧
      Catalog.load (pairsIn pairRows) "pair" = .ok (some (pairTable pairRows)) ∧
      Table.RestrictedAfter (pairTable pairRows) (Catalog.load (pairsIn pairRows)) []
        [.integer 2, .integer 3] ∧
      ((Statement.delete "pair" none).execute (pairsIn pairRows)).1 = .ok (.deleted 2 0) := by
  have hreachable : Reachable (pairsIn pairRows) := Reachable.empty.run (by decide +kernel)
  refine ⟨hreachable, ?_⟩
  rw [pairsIn_eq pairRows (by simp)]
  refine ⟨by decide +kernel, ⟨"link", linkTable, by decide +kernel, ?_⟩, by decide +kernel⟩
  rw [Table.after_nil]
  decide +kernel

end TableStore

end RelationalStore
