import RelationalStore.Proofs.Statement.Reachable

/-!
# Statements that fail

All statements but one store nothing before all is read and checked. This is followed through
the work of each of them: every step that may fail only reads, in the loops as well, and the
steps behind the last one of these cannot fail. So a statement that fails leaves no trace,
whatever was kept before. The exception is the drop of a table, which takes its name out of the
tables that it references one after another.
-/

namespace RelationalStore

variable {κ : Type} [Catalog κ]

namespace Access

/-- A definition that fails has stored nothing. All of its foreign keys are checked before the
first of the tables that they reference is stored. -/
theorem traceless_define (name : String) (columns : List ColumnDefinition)
    (constraints : List TableConstraint) :
    Traceless (define name columns constraints : Access κ _) := by
  unfold define
  dsimp only
  split
  · exact (reads_fail _).traceless
  · refine (reads_lift _).bind_traceless fun withColumns => ?_
    refine (reads_lift _).bind_traceless fun withKey => ?_
    refine (reads_addForeignKeys constraints (withKey, [])).bind_traceless fun state => ?_
    exact ((unfailing_saveAll _).bind fun _ => unfailing_pure _).traceless

/-- A deletion that fails has stored nothing. All of its rows are decided about before the first
of the referencing tables is stored. -/
theorem traceless_delete (t : Table) (condition : Option Condition) :
    Traceless (delete t condition : Access κ _) := by
  unfold delete
  refine (reads_lift _).bind_traceless fun chosen => ?_
  refine (reads_referrers t).bind_traceless fun referrers => ?_
  have hdecide := Reads.foldlM (fun d entry => reads_result (κ := κ) (Deletion.decideRow t d entry))
    chosen ⟨referrers.map fun r => (r, false), [], 0⟩
  refine hdecide.bind_traceless fun d => ?_
  exact ((unfailing_saveAll d.changed).bind fun _ => unfailing_pure _).traceless

end Access

namespace Statement

open Access

variable {c : κ} {s : Statement} {f : Failure}

/-- Apart from the drop of a table, the work of a statement leaves no trace where it fails. -/
theorem traceless_work (hdrop : ∀ name, s ≠ .dropTable name) :
    Traceless (s.work : Access κ Outcome) := by
  cases s with
  | createTable name columns constraints =>
    refine (reads_has name).bind_traceless fun there => ?_
    cases there with
    | true => exact (reads_fail _).traceless
    | false =>
      exact (traceless_define name columns constraints).bind fun t =>
        (unfailing_save t).bind fun _ => unfailing_pure _
  | dropTable name => exact absurd rfl (hdrop name)
  | describe name => exact ((reads_require name).map _).traceless
  | showTables => exact (reads_names.map _).traceless
  | insert table columns values =>
    refine (reads_require table).bind_traceless fun t => ?_
    exact (reads_insert t columns values).traceless.bind fun t' =>
      (unfailing_save t').bind fun _ => unfailing_pure _
  | delete table condition =>
    refine (reads_require table).bind_traceless fun t => ?_
    refine (traceless_delete t condition).bind fun result => ?_
    dsimp only
    split
    · exact (unfailing_save result.1).bind fun _ => unfailing_pure _
    · exact unfailing_pure _
  | select projection sources condition =>
    exact ((reads_run sources projection condition).map _).traceless

/-- Apart from the drop of a table, a statement that fails leaves the catalog as it is. -/
theorem execute_of_error (hdrop : ∀ name, s ≠ .dropTable name)
    (hfails : (s.execute c).1 = .error f) : (s.execute c).2 = c :=
  traceless_work hdrop c _ f (Prod.ext hfails rfl)

end Statement

namespace TableStore

open Catalog

variable {c : TableStore Memory} {s : Statement} {f : Failure} {name : String}

/-- A statement that fails can be left out of a run, if it is not the drop of a table. -/
theorem run_append_of_error {before after : List Statement} (hdrop : ∀ name, s ≠ .dropTable name)
    (hfails : (s.execute (run c before)).1 = .error f) :
    run c (before ++ s :: after) = run c (before ++ after) := by
  have hkept := Statement.execute_of_error hdrop hfails
  simp only [run, List.foldl_append, List.foldl_cons] at hkept ⊢
  rw [hkept]

/-- Apart from the drop of a table, a statement that fails or breaks off changes nothing that
is stored, whatever is stored: tables may be at odds with each other, their rows may be too
short, and what is kept under a key need not be a table. -/
theorem bytes_kept_of_error (hdrop : ∀ name, s ≠ .dropTable name)
    (hfails : (s.execute c).1 = .error f) (k : Key) :
    ByteStore.get (s.execute c).2.store k = ByteStore.get c.store k := by
  rw [Statement.execute_of_error hdrop hfails]

/-- A table of the given name and columns without keys of its own. -/
def plainTable (name : String) (columns : List String) : Table where
  name := name
  schema := columns.map fun column => { Attribute.plain column .integer 0 true with table := name }
  rows := []
  primaryKey := []
  foreignKeys := []
  referencedBy := SortedMap.empty

/-- A catalog in which two rows of a table are referenced by rows of another, the second of
which lacks a cell of the foreign key. -/
def shortRow : TableStore Memory :=
  let team := { plainTable "team" ["id"] with
    rows := [[.integer 1], [.integer 2]]
    primaryKey := ["id"]
    referencedBy := NameSet.ofNames ["player"] }
  let player := { plainTable "player" ["team", "since"] with
    rows := [[.integer 1, .integer 2020], [.integer 2]]
    foreignKeys := [⟨["team", "since"], "team", ["id"], true⟩] }
  save (save ⟨Memory.empty⟩ team) player

/-- A deletion that breaks off at the short row has set the first reference to NULL in no
table that is stored. -/
theorem bytes_kept_of_error_sample :
    ((Statement.delete "team" none).execute shortRow).1 = .error .noSuchCell ∧
      ∀ k, ByteStore.get ((Statement.delete "team" none).execute shortRow).2.store k =
        ByteStore.get shortRow.store k := by
  have hfails : ((Statement.delete "team" none).execute shortRow).1 = .error .noSuchCell := by
    decide +kernel
  have hdrop : ∀ name, Statement.delete "team" none ≠ .dropTable name := by
    intro name
    simp
  exact ⟨hfails, bytes_kept_of_error hdrop hfails⟩

end TableStore

end RelationalStore
