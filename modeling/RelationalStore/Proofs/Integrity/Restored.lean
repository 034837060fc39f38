import RelationalStore.Proofs.Integrity.Cascades

/-!
# Tables that leave no trace

A table that is created is entered in the tables that it references, and taken out of them
when it is dropped. In between, statements about its rows store no other table, because nothing
references it yet. So all three together leave the tables as they have been, however many
foreign keys lead to one table and whichever of the statements have failed.
-/

namespace RelationalStore

/-- The statement adds rows to the table of the given name or deletes some of them. -/
def Statement.ChangesRowsOf (name : String) : Statement → Prop
  | insert table _ _ => table = name
  | delete table _ => table = name
  | _ => False

namespace TableMap

variable {tables : TableMap} {t u : Table} {name : String} {targets : List String}

/-- A table that is stored again with other rows is stored with these alone. -/
theorem save_save_rows (rows : List Row) :
    (tables.save t).save { t with rows := rows } = tables.save { t with rows := rows } := by
  ext1
  funext other
  simp only [save]
  split
  · rfl
  · rfl

/-- The drop of a new table takes back what its definition has stored. -/
theorem remove_leave_save_enter (hnew : tables.find t.name = none)
    (hfree : ∀ other u, tables.find other = some u → u.referencedBy.contains t.name = false)
    (targets : List String) :
    (((tables.enter t.name targets).save t).leave t.name targets.eraseDups).remove t.name =
      tables := by
  ext1
  funext other
  rw [find_remove]
  by_cases hother : other = t.name
  · rw [if_pos hother, hother, hnew]
  · rw [if_neg hother, leave, find_relist, find_save, if_neg hother, enter, find_relist,
      Option.map_map]
    cases hfind : tables.find other with
    | none => rfl
    | some u =>
      by_cases hmem : other ∈ targets
      · simp [hmem, List.mem_eraseDups, NameSet.erase_add (hfree other u hfind)]
      · simp [hmem, List.mem_eraseDups]

end TableMap

/-- A deletion from a table that lists no other one changes no other one. -/
theorem Table.changed_eq_nil {t t' : Table} {condition : Option Condition} {read : TableReader}
    {d : Deletion} (hfree : t.referencedBy.keys = [])
    (hdelete : t.delete condition read = .ok (t', d)) : d.changed = [] := by
  obtain ⟨_, referrers, hreferrers, hfollows⟩ := Table.delete_eq_ok hdelete
  obtain rfl : referrers = [] := by
    rw [Table.referrers, hfree] at hreferrers
    split at hreferrers
    · exact (Except.ok.inj hreferrers).symm
    · exact (Except.ok.inj hreferrers).symm
  have hnone : d.referrers = [] := List.forall₂_nil_left_iff.mp (hfollows (by simp)).referrers
  rw [Deletion.changed, hnone]
  rfl

namespace TableStore

variable {c c' : TableStore Memory} {tables : TableMap} {t : Table} {name : String}
  {s : Statement} {changes : List Statement}

/-- A statement about the rows of a table that lists no other one stores at most this table,
with other rows. -/
theorem Holds.execute_change (h : Holds c (tables.save t)) (hfits : c.FitsMemory)
    (hdistinct : t.schema.Distinct) (hfree : t.referencedBy.keys = [])
    (hs : s.ChangesRowsOf t.name) :
    ∃ rows, Holds (s.execute c).2 (tables.save { t with rows := rows }) := by
  have hself : (tables.save t).find t.name = some t := if_pos rfl
  cases s with
  | insert table columns values =>
    obtain rfl : table = t.name := hs
    rcases @executeInsert_cases c (tables.save t) t.name columns values h hfits with
      ⟨f, hfails⟩ | ⟨u, t', c', hu, hinsert, hdone, hholds⟩
    · rw [hfails]
      exact ⟨t.rows, h⟩
    · obtain rfl := Option.some.inj (hself.symm.trans hu)
      obtain ⟨row, rfl, _⟩ := Table.insert_eq_ok hdistinct hinsert
      rw [TableMap.save_save_rows] at hholds
      rw [hdone]
      exact ⟨t.rows ++ [row], hholds⟩
  | delete table condition =>
    obtain rfl : table = t.name := hs
    rcases @executeDelete_cases c (tables.save t) t.name condition h hfits with
      ⟨f, hfails⟩ | ⟨u, t', d, c', hu, hdelete, hdone, hholds⟩
    · rw [hfails]
      exact ⟨t.rows, h⟩
    · obtain rfl := Option.some.inj (hself.symm.trans hu)
      obtain ⟨rfl, _⟩ := Table.delete_eq_ok hdelete
      rw [Table.changed_eq_nil hfree hdelete] at hholds
      rw [hdone]
      split at hholds
      · exact ⟨t.rows, hholds⟩
      · exact ⟨_, TableMap.save_save_rows (t.withoutRows d.removed).rows ▸ hholds⟩
  | _ => exact hs.elim

/-- So does a run of such statements. -/
theorem Holds.run_changes (h : Holds c (tables.save t))
    (hfits : ∀ m ≤ changes.length, (run c (changes.take m)).FitsMemory)
    (hdistinct : t.schema.Distinct) (hfree : t.referencedBy.keys = [])
    (hchanges : ∀ s ∈ changes, s.ChangesRowsOf t.name) :
    ∃ rows, Holds (run c changes) (tables.save { t with rows := rows }) := by
  induction changes generalizing c t with
  | nil => exact ⟨t.rows, h⟩
  | cons s changes ih =>
    rw [List.forall_mem_cons] at hchanges
    have hstart : c.FitsMemory := hfits 0 (Nat.zero_le _)
    obtain ⟨rows, hnext⟩ := h.execute_change hstart hdistinct hfree hchanges.1
    have hrest : ∀ m ≤ changes.length, (run (s.execute c).2 (changes.take m)).FitsMemory :=
      fun m hm => hfits (m + 1) (Nat.succ_le_succ hm)
    exact @ih _ { t with rows := rows } hnext hrest hdistinct hfree hchanges.2

/-- In a reachable catalog, a table that is created can be dropped after any statements about
its rows, whether these succeed or fail, and then the same bytes are stored as before. -/
theorem Reachable.create_drop (h : Reachable c) {columns : List ColumnDefinition}
    {constraints : List TableConstraint} {outcome : Outcome}
    (hcreate : (Statement.createTable name columns constraints).execute c = (.ok outcome, c'))
    (hchanges : ∀ s ∈ changes, s.ChangesRowsOf name)
    (hfits : ∀ m ≤ changes.length, (TableStore.run c' (changes.take m)).FitsMemory) :
    ∃ last, (Statement.dropTable name).execute (TableStore.run c' changes) =
        (.ok (.dropped name), last) ∧
      ∀ k, ByteStore.get last.store k = ByteStore.get c.store k := by
  obtain ⟨tables, hholds, hsound⟩ := h.sound
  rcases @executeCreate_cases c tables name columns constraints hholds h.fitsMemory with
    ⟨f, hfails⟩ | ⟨t, entered, c₁, hnew, hdefine, hdone, hstored⟩
  · rw [hfails] at hcreate
    cases hcreate
  · rw [hdone] at hcreate
    obtain ⟨_, rfl⟩ := Prod.mk.inj hcreate
    obtain ⟨ht, targets, htargets, rfl⟩ := Table.define_eq_ok
      (fun n u hu => tables.named n u (TableMap.read_eq_some_iff.mp hu)) hdefine
    obtain rfl := ht.name_eq
    have hunreferenced : t.referencedBy.keys = [] := by rw [ht.referencedBy_eq]; rfl
    rw [TableMap.saveAll_entered htargets] at hstored
    obtain ⟨rows, hchanged⟩ := hstored.run_changes hfits ht.sound.distinct hunreferenced hchanges
    have hlast : (TableStore.run c₁ changes).FitsMemory := by
      have hall := hfits changes.length (Nat.le_refl _)
      rwa [List.take_length] at hall
    obtain ⟨last, hdrop, hleft⟩ := @Holds.executeDrop _ _ { t with rows := rows } hchanged hlast
      (if_pos rfl) hunreferenced
    have hfree : ∀ other u, tables.find other = some u →
        u.referencedBy.contains t.name = false := by
      intro other u hu
      refine Bool.eq_false_iff.mpr fun hlists => ?_
      obtain ⟨v, hv, _⟩ := (hsound.listed other u hu t.name).mp hlists
      rw [hnew] at hv
      cases hv
    have hsame := @TableMap.remove_leave_save_enter tables { t with rows := rows } hnew hfree
      (t.foreignKeys.map (·.table))
    exact ⟨last, hdrop, hholds.get_eq (hsame ▸ hleft)⟩

/-- Statements about the rows of a table that references another one twice. The first of them
fails, as it would make a reference without target. -/
def sampleChanges : List Statement :=
  [.insert "transfer" none [.integer 1, .integer 3],
    .insert "transfer" none [.integer 1, .integer 1],
    .insert "transfer" none [.integer 1, .null],
    .delete "transfer" (some (.columnIs "to" (.integer 1)))]

/-- The definition of that table. -/
def sampleDefinition : Statement :=
  .createTable "transfer" [.plain "from" .integer, .plain "to" .integer]
    [.foreignKey ["from"] "team" ["id"], .foreignKey ["to"] "team" ["id"]]

/-- The sample with that table, on which the statements have been executed. -/
def sampleChanged : TableStore Memory :=
  run (sampleDefinition.execute sample).2 sampleChanges

/-- The table that was referenced twice lists what it listed before. -/
theorem create_drop_sample :
    ((Statement.dropTable "transfer").execute sampleChanged).1 = .ok (.dropped "transfer") ∧
      ByteStore.get ((Statement.dropTable "transfer").execute sampleChanged).2.store
        (keyOf "team") = .ok (some (Binary.write { sampleTeams with rows := [[.integer 1]] })) := by
  have hcreated : (sampleDefinition.execute sample).1 = .ok (.created "transfer") := by
    rw [sample_eq]
    decide +kernel
  have hcreate : sampleDefinition.execute sample =
      (.ok (.created "transfer"), (sampleDefinition.execute sample).2) := by
    rw [← hcreated, Prod.mk.eta]
  have hchanges : ∀ s ∈ sampleChanges, s.ChangesRowsOf "transfer" := by
    simp [sampleChanges, Statement.ChangesRowsOf]
  have hfits : ∀ m ≤ sampleChanges.length,
      (run (sampleDefinition.execute sample).2 (sampleChanges.take m)).FitsMemory := by
    rw [sample_eq]
    decide +kernel
  obtain ⟨last, hdrop, hsame⟩ := reachable_sample.create_drop hcreate hchanges hfits
  have hteams : ByteStore.get sample.store (keyOf "team") =
      .ok (some (Binary.write { sampleTeams with rows := [[.integer 1]] })) := by
    rw [sample_eq]
    decide +kernel
  rw [sampleChanged, hdrop]
  exact ⟨rfl, (hsame _).trans hteams⟩

end TableStore

end RelationalStore
