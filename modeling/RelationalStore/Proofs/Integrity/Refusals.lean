import RelationalStore.Proofs.Integrity.Runs
import RelationalStore.Proofs.Table.Query
import RelationalStore.Proofs.Table.Refusal
import RelationalStore.Proofs.Table.Unfailing

/-!
# What statements are refused for

Over sound tables a statement is refused only for what it says itself: the checks that the
store makes on the way never fail of their own. For each kind of statement this comes from
what its operation on tables is refused for, as all that is read can be read, and foreign
keys lead to sound tables that they fit.
-/

namespace RelationalStore

/-- The rows of a sound table have a value for each column. -/
theorem Table.Sound.filled {t : Table} (h : t.Sound) : t.Filled := by
  intro row hrow
  exact (h.admits row hrow).length_eq.symm

namespace TableMap

variable {tables : TableMap} {t : Table} {name : String}

/-- Foreign keys lead to sound tables that they fit. -/
theorem Integral.directed (h : tables.Integral) (hfind : tables.find name = some t) :
    t.Directed tables.read t.foreignKeys := by
  intro fk hfk
  obtain ⟨_, target, htarget, hfits⟩ := h.targets name t hfind fk hfk
  exact ⟨target, read_eq_some_iff.mpr htarget, h.sound fk.table target htarget, hfits⟩

/-- From sound tables everything can be read, and what is read is filled. -/
theorem Integral.readable (h : tables.Integral) : Query.Readable tables.read := by
  intro name
  exact ⟨tables.find name, rfl, fun t ht => (h.sound name t ht).filled⟩

/-- A deletion fails only where its condition fails on a row of the table. -/
theorem Sound.delete_failsOnly (h : tables.Sound) (hfind : tables.find t.name = some t)
    (condition : Option Condition) :
    FailsOnly (fun f => ∃ e c row, f = .error e ∧ condition = some c ∧ row ∈ t.rows ∧
      c.evaluate row t.schema = .error e) (t.delete condition tables.read) := by
  obtain ⟨referrers, hreferrers⟩ : ∃ referrers, t.referrers tables.read = .ok referrers := by
    unfold Table.referrers
    split
    · exact ⟨[], rfl⟩
    · exact ⟨_, readAll_read _⟩
  obtain ⟨_, hkept, _⟩ := h.referrers_eq_ok hfind hreferrers
  refine Table.delete_failsOnly (h.sound t.name t hfind) hreferrers fun r hr => ?_
  have hr := (hkept r hr).1
  exact ⟨h.sound r.name r hr, h.referrer hfind hr⟩

end TableMap

/-- What a statement may be refused for in a catalog. -/
def Statement.MayFailWith {κ : Type} [Catalog κ] (c : κ) : Statement → Error → Prop
  | createTable _ _ _, e => e.topic = .definition
  | dropTable name, e => e = .noSuchTable name ∨ e = .dropReferenced name
  | describe name, e => e = .noSuchTable name
  | showTables, _ => False
  | insert table _ _, e => e = .noSuchTable table ∨ e.topic = .insertion
  | delete table condition, e =>
    (e = .noSuchTable table ∧ Catalog.load c table = .ok none) ∨
      ∃ t w row, Catalog.load c table = .ok (some t) ∧ condition = some w ∧ row ∈ t.rows ∧
        w.evaluate row t.schema = .error e
  | select _ _ _, e => e.topic = .query ∨ e.topic = .condition

namespace TableStore

open Catalog

variable {c : TableStore Memory} {name : String}

section Statements

variable {tables : TableMap}

/-- A table that is asked for can be read, so that it fails to be there at most. -/
theorem require_failsOnly (h : Holds c tables) (hfits : c.FitsMemory) (name : String) :
    FailsOnly (fun f => f = .error (.noSuchTable name) ∧ load c name = .ok none)
      (require c name) := by
  have hload := h.load_eq_find hfits name
  refine FailsOnly.bind_ok hload ?_
  cases hfind : tables.find name with
  | none => exact .error ⟨rfl, hfind ▸ hload⟩
  | some t => exact .ok t

/-- What is committed fails with what its result fails with. -/
theorem fst_commit_eq_error_iff {α κ : Type} {catalog : κ} {result : Except Failure α}
    {finish : α → Outcome × κ} {f : Failure} :
    (Access.commit catalog result finish).1 = .error f ↔ result = .error f := by
  cases result with
  | error g => simp [Access.commit]
  | ok a => simp [Access.commit]

/-- A statement that finishes with the result of an operation fails with nothing but what the
operation fails with. -/
theorem fst_commit_failsOnly {α κ : Type} {P : Failure → Prop} {catalog : κ}
    {result : Except Failure α} {finish : α → Outcome × κ} (h : FailsOnly P result) :
    FailsOnly P (Access.commit catalog result finish).1 :=
  fun f hf => h f (fst_commit_eq_error_iff.mp hf)

/-- The definition of a table is refused only for what it says. -/
theorem executeCreate_failsOnly (h : Holds c tables) (hfits : c.FitsMemory)
    (columns : List ColumnDefinition) (constraints : List TableConstraint) :
    FailsOnly (Failure.About .definition)
      ((Statement.createTable name columns constraints).execute c).1 := by
  rw [Statement.execute_createTable, Statement.executeCreate]
  split
  · exact .error ⟨_, rfl, rfl⟩
  · refine fst_commit_failsOnly (Table.define_failsOnly (fun other => ?_) _ _ _)
    exact ⟨tables.find other, h.load_eq_find hfits other⟩

/-- Dropping a table is refused only if it is not there or another one references it. -/
theorem executeDrop_failsOnly (h : Holds c tables) (hfits : c.FitsMemory) :
    FailsOnly (fun f => f = .error (.noSuchTable name) ∨ f = .error (.dropReferenced name))
      ((Statement.dropTable name).execute c).1 := by
  rw [Statement.execute_dropTable, Statement.executeDrop]
  have hrequired := require_failsOnly h hfits name
  cases hrequire : require c name with
  | error f => exact .error (.inl (hrequired f hrequire).1)
  | ok t =>
    obtain rfl := tables.named name t (require_eq_ok h hfits hrequire)
    dsimp only
    split
    · obtain ⟨left, hleft, _⟩ := @leaveTargets_holds c tables t.name
        (t.foreignKeys.map (·.table)).eraseDups h (nodup_eraseDups _)
        fun target _ => h.load_eq_find hfits target
      rw [hleft]
      exact .ok _
    · exact .error (.inr rfl)

/-- An insertion is refused only if the table is not there or for the row that is given. -/
theorem executeInsert_failsOnly (h : Holds c tables) (hfits : c.FitsMemory)
    (hsound : tables.Sound) (columns : Option (List String)) (values : List Value) :
    FailsOnly (fun f => f = .error (.noSuchTable name) ∨ Failure.About .insertion f)
      ((Statement.insert name columns values).execute c).1 := by
  rw [Statement.execute_insert]
  refine fst_commit_failsOnly (FailsOnly.bind ?_ fun t hrequire => ?_)
  · exact (require_failsOnly h hfits name).mono fun _ hf => .inl hf.1
  · have hfind := require_eq_ok h hfits hrequire
    rw [h.load_eq_read hfits]
    have hinsert := Table.insert_failsOnly (hsound.sound name t hfind) (hsound.directed hfind)
      columns values
    exact hinsert.mono fun _ => .inr

/-- A deletion is refused only if the table is not there or for what its condition says. -/
theorem executeDelete_failsOnly (h : Holds c tables) (hfits : c.FitsMemory)
    (hsound : tables.Sound) (condition : Option Condition) :
    FailsOnly (fun f => ∃ e, f = .error e ∧ (Statement.delete name condition).MayFailWith c e)
      ((Statement.delete name condition).execute c).1 := by
  rw [Statement.execute_delete]
  refine fst_commit_failsOnly (FailsOnly.bind ?_ fun t hrequire => ?_)
  · exact (require_failsOnly h hfits name).mono fun f hf => ⟨_, hf.1, .inl ⟨rfl, hf.2⟩⟩
  · have hfind := require_eq_ok h hfits hrequire
    have hdelete := hsound.delete_failsOnly (tables.find_self hfind) condition
    rw [← h.load_eq_read hfits] at hdelete
    refine hdelete.mono ?_
    rintro _ ⟨e, w, row, rfl, hw, hrow, he⟩
    exact ⟨e, rfl, .inr ⟨t, w, row, require_eq_ok_iff.mp hrequire, hw, hrow, he⟩⟩

/-- A query is refused only for the tables and columns that it asks for or for its condition. -/
theorem executeSelect_failsOnly (h : Holds c tables) (hfits : c.FitsMemory)
    (hsound : tables.Sound) (projection : Option (List Projection)) (sources : List Source)
    (condition : Option Condition) :
    FailsOnly (fun f => Failure.About .query f ∨ Failure.About .condition f)
      ((Statement.select projection sources condition).execute c).1 := by
  have hrun := Query.run_failsOnly hsound.readable sources projection condition
  rw [← h.load_eq_read hfits] at hrun
  rw [Statement.execute_select]
  exact hrun.map

end Statements

/-- In a reachable catalog a statement is refused for nothing but what it may be refused
for. -/
theorem Reachable.execute_failsOnly (h : Reachable c) (s : Statement) :
    FailsOnly (fun f => ∃ e, f = .error e ∧ s.MayFailWith c e) (s.execute c).1 := by
  obtain ⟨tables, hholds, hsound⟩ := h.sound
  have hfits := h.fitsMemory
  cases s with
  | createTable name columns constraints =>
    exact executeCreate_failsOnly hholds hfits columns constraints
  | dropTable name =>
    refine (executeDrop_failsOnly hholds hfits).mono fun f hf => ?_
    rcases hf with rfl | rfl
    · exact ⟨_, rfl, .inl rfl⟩
    · exact ⟨_, rfl, .inr rfl⟩
  | describe name =>
    have hrequired := require_failsOnly hholds hfits name
    rw [Statement.execute_describe]
    exact (hrequired.mono fun _ hf => ⟨_, hf.1, rfl⟩).map
  | showTables =>
    obtain ⟨names, hnames, _⟩ := hholds.exists_names
    rw [Statement.execute_showTables]
    exact (FailsOnly.of_exists_ok ⟨names, hnames⟩).map
  | insert table columns values =>
    refine (executeInsert_failsOnly hholds hfits hsound columns values).mono fun f hf => ?_
    rcases hf with rfl | ⟨e, rfl, he⟩
    · exact ⟨_, rfl, .inl rfl⟩
    · exact ⟨e, rfl, .inr he⟩
  | delete table condition => exact executeDelete_failsOnly hholds hfits hsound condition
  | select projection sources condition =>
    refine (executeSelect_failsOnly hholds hfits hsound projection sources condition).mono ?_
    rintro _ (⟨e, rfl, he⟩ | ⟨e, rfl, he⟩)
    · exact ⟨e, rfl, .inl he⟩
    · exact ⟨e, rfl, .inr he⟩

/-- In a reachable catalog what a statement may be refused for has nothing to do with what
is kept: a condition is evaluated on rows that fit their columns. -/
theorem Reachable.topic_ne_storage (h : Reachable c) {s : Statement} {e : Error}
    (hmay : s.MayFailWith c e) : e.topic ≠ .storage := by
  obtain ⟨tables, hholds, hsound⟩ := h.sound
  cases s with
  | createTable name columns constraints =>
    have htopic : e.topic = .definition := hmay
    simp [htopic]
  | dropTable name =>
    rcases hmay with rfl | rfl
    · simp [Error.topic]
    · simp [Error.topic]
  | describe name =>
    obtain rfl : e = .noSuchTable name := hmay
    simp [Error.topic]
  | showTables => exact hmay.elim
  | insert table columns values =>
    rcases hmay with rfl | htopic
    · simp [Error.topic]
    · simp [htopic]
  | delete table condition =>
    rcases hmay with ⟨rfl, _⟩ | ⟨t, w, row, ht, _, hrow, he⟩
    · simp [Error.topic]
    · have hfind := (hholds.load_eq_some_iff h.fitsMemory).mp ht
      have hlength := (hsound.sound table t hfind).filled row hrow
      simp [w.evaluate_failsOnly hlength e he]
  | select projection sources condition =>
    rcases hmay with htopic | htopic
    · simp [htopic]
    · simp [htopic]

/-- In a reachable catalog every statement that fails is refused for a cause, and never
because of what is kept or of the form in which it is kept. An insertion is refused for a
missing table or for its row, and the drop of a table for a missing table or because the
table is referenced. A deletion from a table that is there fails only if its condition does
on a row that is stored. -/
theorem Reachable.no_internal_failure (h : Reachable c) {s : Statement} {f : Failure}
    (hfails : (s.execute c).1 = .error f) :
    ∃ e, f = .error e ∧
      (∀ detail, e ≠ .invalidData detail ∧ e ≠ .encode detail ∧ e ≠ .decode detail ∧
        e ≠ .io detail) ∧
      (∀ table columns values, s = .insert table columns values →
        e = .noSuchTable table ∨ e.topic = .insertion) ∧
      (∀ name, s = .dropTable name → e = .noSuchTable name ∨ e = .dropReferenced name) ∧
      ∀ table condition, s = .delete table condition → has c table = true →
        ∃ t w row, load c table = .ok (some t) ∧ condition = some w ∧ row ∈ t.rows ∧
          w.evaluate row t.schema = .error e := by
  obtain ⟨e, rfl, hmay⟩ := h.execute_failsOnly s f hfails
  have hstorage := h.topic_ne_storage hmay
  refine ⟨e, rfl, fun detail => ?_, ?_, ?_, ?_⟩
  · refine ⟨?_, ?_, ?_, ?_⟩ <;> rintro rfl <;> exact hstorage rfl
  · rintro table columns values rfl
    exact hmay
  · rintro name rfl
    exact hmay
  · rintro table condition rfl hthere
    obtain ⟨tables, hholds, _⟩ := h.sound
    obtain ⟨t, hfind⟩ := hholds.has_iff.mp hthere
    rcases hmay with ⟨_, hnone⟩ | hevaluate
    · have hload := (hholds.load_eq_some_iff h.fitsMemory).mpr hfind
      rw [hnone] at hload
      cases hload
    · exact hevaluate

/-- A deletion that compares a number with a text is refused because of this comparison. -/
theorem no_internal_failure_sample : ∃ t w row, load sample "team" = .ok (some t) ∧
    row ∈ t.rows ∧ Condition.evaluate w row t.schema = .error .incomparable := by
  have hfails : ((Statement.delete "team" (some (.columnIs "id" (.char "two")))).execute
      sample).1 = .error (.error .incomparable) := by
    rw [sample_eq]
    decide +kernel
  have hthere : has sample "team" = true := by
    rw [sample_eq]
    decide +kernel
  obtain ⟨e, he, _, _, _, hdelete⟩ := reachable_sample.no_internal_failure hfails
  obtain rfl := Failure.error.inj he
  obtain ⟨t, w, row, hload, _, hrow, hevaluate⟩ := hdelete "team" _ rfl hthere
  exact ⟨t, w, row, hload, hrow, hevaluate⟩

end TableStore

end RelationalStore
