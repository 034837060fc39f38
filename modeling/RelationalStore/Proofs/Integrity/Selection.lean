import RelationalStore.Proofs.Integrity.Creation
import RelationalStore.Proofs.Table.Selection

/-!
# Queries over reachable tables

The columns of a stored table name it as their table, and its rows are as long as its schema. So
a query in a reachable catalog is answered from the product of its tables: exactly those rows on
which the condition is true are given, in the order of the rows of its tables.
-/

namespace RelationalStore

/-- The columns of a table that is defined name it. -/
theorem Table.labelled_defined (name : String) (columns : List ColumnDefinition)
    (constraints : List TableConstraint) : (defined name columns constraints).Labelled := by
  intro a ha
  obtain ⟨b, hb, rfl⟩ := List.mem_map.mp ha
  obtain ⟨definition, _, rfl⟩ := List.mem_map.mp hb
  dsimp only [Attribute.markedBy]
  split
  · rfl
  · rfl

namespace TableMap

/-- The columns of every table name it as their table. -/
def Labelled (tables : TableMap) : Prop :=
  ∀ name t, tables.find name = some t → t.Labelled

variable {tables tables' : TableMap} {t : Table}

/-- What is listed as referencing a table plays no part in how its columns are labelled. -/
theorem Labelled.relist (h : tables.Labelled) (change : String → NameSet → NameSet) :
    (tables.relist change).Labelled := by
  intro name u hu
  obtain ⟨v, hv, rfl⟩ := find_relist_eq_some_iff.mp hu
  exact h name v hv

/-- The rows of a table play no part in how its columns are labelled. -/
theorem Labelled.of_sameButRows (h : tables.Labelled) (hsame : tables.SameButRows tables') :
    tables'.Labelled := by
  intro name u hu
  obtain ⟨v, hv, heq⟩ := hsame.back name u hu
  rw [heq]
  exact h name v hv

/-- Every step leaves tables whose columns name them, if it has found such tables. -/
theorem Labelled.step (h : tables.Labelled) (hsound : tables.Sound)
    (hstep : tables.Step tables') : tables'.Labelled := by
  cases hstep with
  | stay => exact h
  | create hnew hdefine =>
    obtain ⟨_, rfl⟩ := hsound.define_eq_ok_iff.mp ⟨_, hdefine⟩
    obtain ⟨_, targets, htargets, rfl⟩ := Table.define_eq_ok
      (fun n u hu => tables.named n u (read_eq_some_iff.mp hu)) hdefine
    rw [saveAll_entered htargets]
    intro name u hu
    rcases find_save_eq_some_iff.mp hu with ⟨_, rfl⟩ | ⟨_, hu⟩
    · exact Table.labelled_defined _ _ _
    · exact h.relist _ name u hu
  | drop hfind _ => exact fun name u hu => h.relist _ name u (find_remove_eq_some_iff.mp hu).2
  | @insert t t' columns values hfind hinsert =>
    obtain ⟨row, rfl, _⟩ := Table.insert_eq_ok (hsound.sound t.name t hfind).distinct hinsert
    exact h.of_sameButRows (sameButRows_save hfind _)
  | delete hfind hdelete =>
    exact h.of_sameButRows ((hsound.deleted hfind hdelete).sameButRows hfind)

end TableMap

namespace TableStore

variable {c : TableStore Memory} {sources : List Source}

/-- In a reachable catalog the columns of every table name it as their table. -/
theorem Reachable.labelled (h : Reachable c) :
    ∃ tables, Holds c tables ∧ tables.Sound ∧ tables.Labelled := by
  refine h.preserves (P := fun tables => tables.Sound ∧ tables.Labelled) ?_ ?_
  · exact ⟨TableMap.sound_empty, fun _ _ hfind => by cases hfind⟩
  · rintro tables tables' ⟨hsound, hlabelled⟩ hstep
    exact ⟨hsound.step hstep, hlabelled.step hsound hstep⟩

/-- A source that names a stored table finds it. -/
theorem Reachable.finds (h : Reachable c) {s : Source} {t : Table}
    (hload : Catalog.load c s.name = .ok (some t)) : Query.Finds (Catalog.load c) s t := by
  obtain ⟨stored, hholds, hsound, hlabelled⟩ := h.labelled
  have hfind := (hholds.load_eq_some_iff h.fitsMemory).mp hload
  exact ⟨hload, stored.named s.name t hfind, hlabelled s.name t hfind,
    (hsound.sound s.name t hfind).filled⟩

/-- Sources that name stored tables find them. -/
theorem Reachable.exists_finds (h : Reachable c)
    (hstored : ∀ s ∈ sources, Catalog.has c s.name = true) :
    ∃ tables, List.Forall₂ (Query.Finds (Catalog.load c)) sources tables := by
  obtain ⟨stored, hholds, _⟩ := h.labelled
  refine List.Forall₂.exists_of_forall fun s hs => ?_
  obtain ⟨t, hfind⟩ := hholds.has_iff.mp (hstored s hs)
  exact ⟨t, h.finds ((hholds.load_eq_some_iff h.fitsMemory).mpr hfind)⟩

/-- In a reachable catalog a query over stored tables, in which no alias is given twice, succeeds
exactly if its condition has a truth on every row that can be put together from one row of each
table, and each column that it asks for is one of theirs. It then gives those rows on which the
condition is true, in lexicographic order of the row positions, and of each the columns that it
asks for. -/
theorem Reachable.select_relational (h : Reachable c)
    (hstored : ∀ s ∈ sources, Catalog.has c s.name = true)
    (haliases : (sources.filterMap (·.asName)).Nodup)
    (projection : Option (List Projection)) (condition : Option Condition) :
    ∃ tables, List.Forall₂ (fun s t => Catalog.load c s.name = .ok (some t)) sources tables ∧
      ((∃ outcome, ((Statement.select projection sources condition).execute c).1 = .ok outcome) ↔
        Query.Answerable (Query.joinedSchema sources tables) tables projection condition) ∧
      ∀ outcome c', (Statement.select projection sources condition).execute c =
          (.ok outcome, c') →
        c' = c ∧ ∃ chosen rows,
          outcome = .selected (Query.headers (Query.joinedSchema sources tables) projection) rows ∧
          Query.Chosen (Query.joinedSchema sources tables) tables condition chosen ∧
          List.Forall₂ (fun positions row =>
            Query.Projects (Query.joinedSchema sources tables) projection
              (Query.joinedRow tables positions) row) chosen rows := by
  obtain ⟨tables, hfinds⟩ := h.exists_finds hstored
  rw [Statement.execute_select]
  refine ⟨tables, hfinds.imp fun _ _ hfirst => hfirst.stored, ⟨?_, ?_⟩, fun outcome c' h => ?_⟩
  · rintro ⟨outcome, houtcome⟩
    cases hrun : Query.run sources projection condition (Catalog.load c) with
    | error f =>
      rw [hrun] at houtcome
      cases houtcome
    | ok answer => exact (Query.run_eq_ok hfinds haliases hrun).1
  · intro hanswerable
    obtain ⟨answer, hrun⟩ := Query.exists_run hfinds haliases hanswerable
    exact ⟨.selected answer.1 answer.2, by rw [hrun]; rfl⟩
  · obtain ⟨houtcome, rfl⟩ := Prod.mk.inj h
    refine ⟨rfl, ?_⟩
    cases hrun : Query.run sources projection condition (Catalog.load c) with
    | error f =>
      rw [hrun] at houtcome
      cases houtcome
    | ok answer =>
      obtain ⟨_, hheaders, chosen, hchosen, hrows⟩ := Query.run_eq_ok hfinds haliases hrun
      rw [hrun] at houtcome
      exact ⟨chosen, answer.2, hheaders ▸ (Except.ok.inj houtcome).symm, hchosen, hrows⟩

/-- The players of the sample, read twice. -/
def sampleSources : List Source :=
  [⟨"player", some "a"⟩, ⟨"player", some "b"⟩]

/-- The numbers of both players. -/
def sampleProjection : List Projection :=
  [⟨some "a", "id", none⟩, ⟨some "b", "id", none⟩]

/-- The first player has the lesser number. -/
def sampleCondition : Condition :=
  .holds ⟨.less, .column (some "a") "id", .column (some "b") "id"⟩

/-- There is one pair of players in order of their numbers. A bare number is that of either
player and cannot be asked for. -/
theorem select_relational_sample :
    (∃ positions, Query.Chosen
      (Query.joinedSchema sampleSources [samplePlayers, samplePlayers])
      [samplePlayers, samplePlayers] (some sampleCondition) [positions] ∧
      Query.Projects (Query.joinedSchema sampleSources [samplePlayers, samplePlayers])
        (some sampleProjection) (Query.joinedRow [samplePlayers, samplePlayers] positions)
        [.integer 7, .integer 8]) ∧
      ¬ Query.Answerable (Query.joinedSchema sampleSources [samplePlayers, samplePlayers])
        [samplePlayers, samplePlayers] (some [⟨none, "id", none⟩]) none := by
  have hstored : ∀ s ∈ sampleSources, Catalog.has sample s.name = true := by
    rw [sample_eq]
    decide +kernel
  have haliases : (sampleSources.filterMap (·.asName)).Nodup := by decide
  have htables {tables : List Table} (h : List.Forall₂
      (fun s t => Catalog.load sample s.name = .ok (some t)) sampleSources tables) :
      tables = [samplePlayers, samplePlayers] := by
    obtain ⟨t, _, ht, hrest, rfl⟩ := List.forall₂_cons_left_iff.mp h
    obtain ⟨u, _, hu, hnone, rfl⟩ := List.forall₂_cons_left_iff.mp hrest
    obtain rfl := List.forall₂_nil_left_iff.mp hnone
    obtain rfl := Option.some.inj (Except.ok.inj (load_sample.symm.trans ht))
    obtain rfl := Option.some.inj (Except.ok.inj (load_sample.symm.trans hu))
    rfl
  constructor
  · have hselected : ((Statement.select (some sampleProjection) sampleSources
        (some sampleCondition)).execute sample).1 =
          .ok (.selected ["id", "id"] [[.integer 7, .integer 8]]) := by
      rw [sample_eq]
      decide +kernel
    obtain ⟨tables, hloaded, _, hanswer⟩ := reachable_sample.select_relational hstored haliases
      (some sampleProjection) (some sampleCondition)
    obtain rfl := htables hloaded
    generalize (Statement.select (some sampleProjection) sampleSources
      (some sampleCondition)).execute sample = done at hselected hanswer
    obtain ⟨result, c'⟩ := done
    obtain rfl : result = .ok (.selected ["id", "id"] [[.integer 7, .integer 8]]) := hselected
    obtain ⟨_, chosen, rows, houtcome, hchosen, hrows⟩ := hanswer _ c' rfl
    obtain ⟨_, rfl⟩ := Outcome.selected.inj houtcome
    obtain ⟨positions, _, hrow, hnone, rfl⟩ := List.forall₂_cons_right_iff.mp hrows
    obtain rfl := List.forall₂_nil_right_iff.mp hnone
    exact ⟨positions, hchosen, hrow⟩
  · intro hanswerable
    have hrefused : ((Statement.select (some [⟨none, "id", none⟩])
        sampleSources none).execute sample).1 = .error (.error (.selectColumn "id")) := by
      rw [sample_eq]
      decide +kernel
    obtain ⟨tables, hloaded, hiff, _⟩ :=
      reachable_sample.select_relational hstored haliases (some [⟨none, "id", none⟩]) none
    obtain rfl := htables hloaded
    obtain ⟨outcome, houtcome⟩ := hiff.mpr hanswerable
    rw [hrefused] at houtcome
    cases houtcome

end TableStore

end RelationalStore
