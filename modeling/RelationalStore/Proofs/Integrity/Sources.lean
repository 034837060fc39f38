import RelationalStore.Proofs.Integrity.Cascades
import RelationalStore.Proofs.Integrity.Selection
import RelationalStore.Proofs.Table.Qualified
import RelationalStore.Proofs.Table.Rearranged

/-!
# The sources of a query

In a reachable catalog the order in which a query lists its sources does not decide what is
found, and only the order of the rows depends on it. A column with a qualifier is that of one
source. The qualifier alone does not tell which one: an alias may also be the name of a table
that is read without one, as aliases are only compared with each other.
-/

namespace RelationalStore

namespace TableStore

variable {c : TableStore Memory} {sources sources' : List Source}

/-- A query has an outcome exactly if it can be run on what is read, and then it gives the
headers and rows of this run. -/
theorem execute_select_eq_ok_iff {projection : Option (List Projection)}
    {condition : Option Condition} {outcome : Outcome} :
    ((Statement.select projection sources condition).execute c).1 = .ok outcome ↔
      ∃ headers rows, Query.run sources projection condition (Catalog.load c) =
        .ok (headers, rows) ∧ outcome = .selected headers rows := by
  rw [Statement.execute_select]
  cases Query.run sources projection condition (Catalog.load c) with
  | error f => simp [Except.map]
  | ok answer => simp [Except.map, eq_comm, Prod.ext_iff]

/-- In a reachable catalog a query that asks for some columns succeeds with its sources in one
order exactly if it does in another, and then it gives the same headers and the same rows, each
as often. -/
theorem Reachable.select_perm (h : Reachable c) (hperm : sources.Perm sources')
    (columns : List Projection) (condition : Option Condition) :
    ((∃ outcome, ((Statement.select (some columns) sources condition).execute c).1 =
        .ok outcome) ↔
      ∃ outcome, ((Statement.select (some columns) sources' condition).execute c).1 =
        .ok outcome) ∧
    ∀ outcome outcome',
      ((Statement.select (some columns) sources condition).execute c).1 = .ok outcome →
      ((Statement.select (some columns) sources' condition).execute c).1 = .ok outcome' →
      ∃ headers rows rows', outcome = .selected headers rows ∧
        outcome' = .selected headers rows' ∧ rows.Perm rows' := by
  obtain ⟨tables, hholds, hsound⟩ := h.sound
  have hread : Query.Readable (Catalog.load c) :=
    hholds.load_eq_read h.fitsMemory ▸ hsound.readable
  simp only [execute_select_eq_ok_iff]
  have hone {sources sources' : List Source} (hperm : sources.Perm sources') :
      (∃ outcome headers rows, Query.run sources (some columns) condition (Catalog.load c) =
        .ok (headers, rows) ∧ outcome = Outcome.selected headers rows) →
      ∃ outcome headers rows, Query.run sources' (some columns) condition (Catalog.load c) =
        .ok (headers, rows) ∧ outcome = Outcome.selected headers rows := by
    rintro ⟨_, headers, rows, hrun, rfl⟩
    obtain ⟨rows', hrun', _⟩ := Query.run_perm hread hperm hrun
    exact ⟨_, headers, rows', hrun', rfl⟩
  refine ⟨⟨hone hperm, hone hperm.symm⟩, ?_⟩
  rintro _ _ ⟨headers, rows, hrun, rfl⟩ ⟨headers', rows', hrun', rfl⟩
  obtain ⟨found, hfound, hsame⟩ := Query.run_perm hread hperm hrun
  obtain ⟨rfl, rfl⟩ := Prod.mk.inj (Except.ok.inj (hfound.symm.trans hrun'))
  exact ⟨headers, rows, found, rfl, rfl, hsame⟩

/-- The pairs of players come in another order when the two sources change places. -/
theorem select_perm_sample :
    ∃ rows rows',
      ((Statement.select (some sampleProjection) sampleSources none).execute sample).1 =
        .ok (.selected ["id", "id"] rows) ∧
      ((Statement.select (some sampleProjection) sampleSources.reverse none).execute sample).1 =
        .ok (.selected ["id", "id"] rows') ∧
      rows.Perm rows' ∧ rows ≠ rows' := by
  have hrows : ((Statement.select (some sampleProjection) sampleSources none).execute sample).1 =
      .ok (.selected ["id", "id"] [[.integer 7, .integer 7], [.integer 7, .integer 8],
        [.integer 8, .integer 7], [.integer 8, .integer 8]]) := by
    rw [sample_eq]
    decide +kernel
  have hrows' : ((Statement.select (some sampleProjection) sampleSources.reverse none).execute
      sample).1 = .ok (.selected ["id", "id"] [[.integer 7, .integer 7], [.integer 8, .integer 7],
        [.integer 7, .integer 8], [.integer 8, .integer 8]]) := by
    rw [sample_eq]
    decide +kernel
  obtain ⟨_, _, _, hfirst, hsecond, hperm⟩ :=
    (reachable_sample.select_perm sampleSources.reverse_perm.symm sampleProjection none).2
      _ _ hrows hrows'
  obtain ⟨rfl, rfl⟩ := Outcome.selected.inj hfirst
  obtain ⟨_, rfl⟩ := Outcome.selected.inj hsecond
  exact ⟨_, _, hrows, hrows', hperm, by decide⟩

/-- Sources that are read find their tables, and no alias is given twice. -/
theorem Reachable.finds_of_readSources (h : Reachable c)
    {entries : List (Table × Option String)}
    (hread : Query.readSources (Catalog.load c) [] sources = .ok entries) :
    List.Forall₂ (Query.Finds (Catalog.load c)) sources (entries.map Prod.fst) ∧
      (sources.filterMap (·.asName)).Nodup ∧
      entries = (entries.map Prod.fst).zip (sources.map (·.asName)) := by
  obtain ⟨hentries, hnodup, _⟩ := Query.readSources_eq_ok_iff.mp hread
  have hfinds : List.Forall₂ (Query.Finds (Catalog.load c)) sources (entries.map Prod.fst) :=
    List.forall₂_map_right_iff.mpr (hentries.imp fun _ _ hentry => h.finds hentry.1)
  rw [Query.readSources_eq_ok hfinds hnodup fun _ _ => List.not_mem_nil] at hread
  exact ⟨hfinds, hnodup, (Except.ok.inj hread).symm⟩

/-- In a reachable catalog a reference with a qualifier that resolves is to a column of one
source. No other source that is read under the qualifier has a column of the name, and in every
row of the product the reference has the value that stands in the column in the row of this
source. If another source is read under the qualifier all the same, one of the two has it for an
alias, and the other one is the table of this name without an alias. -/
theorem Reachable.qualified_reference (h : Reachable c)
    {entries : List (Table × Option String)}
    (hread : Query.readSources (Catalog.load c) [] sources = .ok entries)
    {q column : String} {i : Nat}
    (hresolve : (Query.productOf entries).schema.resolve (some q) column = .ok i) :
    ∃ k s t p, sources[k]? = some s ∧ Catalog.load c s.name = .ok (some t) ∧ s.reference = q ∧
      t.schema.position? column = some p ∧
      i = Query.columnsBefore (entries.map Prod.fst) k + p ∧
      (∀ row ∈ (Query.productOf entries).rows, ∃ positions n own v,
        Query.InRange (entries.map Prod.fst) positions ∧
        row = Query.joinedRow (entries.map Prod.fst) positions ∧
        positions[k]? = some n ∧ t.rows[n]? = some own ∧ t.schema.value? own column = some v ∧
        (Operand.column (some q) column).value row (Query.productOf entries).schema = .ok v ∧
        ∀ asName, Query.Projects (Query.productOf entries).schema
          (some [⟨some q, column, asName⟩]) row [v]) ∧
      (∀ k' s' t', sources[k']? = some s' → Catalog.load c s'.name = .ok (some t') →
        s'.reference = q → (∃ a ∈ t'.schema, a.name = column) → k' = k) ∧
      ∀ k' s', sources[k']? = some s' → s'.reference = q → k' ≠ k →
        s.asName = some q ∧ s' = ⟨q, none⟩ ∨ s = ⟨q, none⟩ ∧ s'.asName = some q := by
  obtain ⟨hfinds, hnodup, hentries⟩ := h.finds_of_readSources hread
  generalize entries.map Prod.fst = tables at hfinds hentries ⊢
  subst hentries
  have hproduct : Query.productOf (tables.zip (sources.map (·.asName))) =
      Query.joinedTable sources tables := rfl
  rw [hproduct, Query.schema_joinedTable hfinds] at hresolve ⊢
  have hanswers := Schema.resolve_eq_ok_iff.mp hresolve
  obtain ⟨k, s, t, p, hs, ht, hq, hp, rfl, honly⟩ :=
    Query.exists_source_of_answersAt hfinds.length_eq hanswers
  have hfound {k : Nat} {s : Source} (hs : sources[k]? = some s) :
      ∃ t, tables[k]? = some t ∧ Catalog.load c s.name = .ok (some t) := by
    obtain ⟨t, ht, hfirst⟩ := hfinds.exists_getElem?_right hs
    exact ⟨t, ht, hfirst.stored⟩
  have honly' (k' : Nat) (s' : Source) (t' : Table) (hs' : sources[k']? = some s')
      (hload : Catalog.load c s'.name = .ok (some t')) (hq' : s'.reference = q)
      (hcolumn : ∃ a ∈ t'.schema, a.name = column) : k' = k := by
    obtain ⟨u, hu, hload'⟩ := hfound hs'
    obtain rfl := Option.some.inj (Except.ok.inj (hload'.symm.trans hload))
    exact honly k' s' u hs' hu hq' hcolumn
  obtain ⟨u, hu, hload⟩ := hfound hs
  obtain rfl := Option.some.inj (hu.symm.trans ht)
  refine ⟨k, s, u, p, hs, hload, hq, hp, rfl, fun row hrow => ?_, honly',
    fun k' s' hs' hq' hne => ?_⟩
  · obtain ⟨positions, n, own, v, hrange, hrow, hn, hown, hv, hvalue⟩ :=
      Query.exists_value_of_answersAt hfinds hanswers ht hp hrow
    exact ⟨positions, n, own, v, hrange, hrow, hn, hown, hv, hvalue, fun asName =>
      .cons (Schema.value_column_eq_ok_iff.mp hvalue) .nil⟩
  · rcases Query.asName_eq_or_of_reference_eq hq with hname | rfl
    · rcases Query.asName_eq_or_of_reference_eq hq' with hname' | rfl
      · exact absurd (Query.eq_of_asName_eq hnodup hs hs' hname hname') hne
      · exact .inl ⟨hname, rfl⟩
    · rcases Query.asName_eq_or_of_reference_eq hq' with hname' | rfl
      · exact .inr ⟨rfl, hname'⟩
      · obtain ⟨a, ha, hname⟩ := Schema.getElem?_of_position? hp
        exact absurd (honly' k' _ u hs' hload hq ⟨a, List.mem_of_getElem? ha, hname⟩) hne

/-- The players under the name of the teams, and the teams themselves. -/
def clashingSources : List Source :=
  [⟨"player", some "team"⟩, ⟨"team", none⟩]

/-- Both tables are read under one name, since only aliases must differ from what was there
before. -/
theorem readSources_clashing : Query.readSources (Catalog.load sample) [] clashingSources =
    .ok [(samplePlayers, some "team"), (keptTeams, none)] := by
  rw [sample_eq]
  decide +kernel

/-- Only the players have a team. So the reference is to their column, although the table of the
teams is read under the same name. -/
theorem qualified_reference_sample :
    ∃ k s t p, clashingSources[k]? = some s ∧ Catalog.load sample s.name = .ok (some t) ∧
      t.schema.position? "team" = some p ∧
      1 = Query.columnsBefore [samplePlayers, keptTeams] k + p ∧
      ∀ k' s', clashingSources[k']? = some s' → s'.reference = "team" → k' ≠ k →
        s.asName = some "team" ∧ s' = ⟨"team", none⟩ ∨
          s = ⟨"team", none⟩ ∧ s'.asName = some "team" := by
  have hresolve : (Query.productOf [(samplePlayers, some "team"), (keptTeams, none)]).schema.resolve
      (some "team") "team" = .ok 1 := by decide +kernel
  obtain ⟨k, s, t, p, hs, hload, _, hp, hi, _, _, hclash⟩ :=
    reachable_sample.qualified_reference readSources_clashing hresolve
  exact ⟨k, s, t, p, hs, hload, hp, hi, hclash⟩

/-- The reference is answered, although both of the sources are read under its qualifier. -/
theorem qualifier_not_unique :
    Reachable sample ∧
      Query.readSources (Catalog.load sample) [] clashingSources =
        .ok [(samplePlayers, some "team"), (keptTeams, none)] ∧
      ((Statement.select (some [⟨some "team", "team", none⟩]) clashingSources none).execute
        sample).1 = .ok (.selected ["team"] [[.integer 1], [.null]]) ∧
      ¬ ∃! k : Nat, (clashingSources[k]?).map Source.reference = some "team" := by
  refine ⟨reachable_sample, readSources_clashing, by rw [sample_eq]; decide +kernel, ?_⟩
  rintro ⟨k, _, honly⟩
  exact absurd ((honly 0 rfl).trans (honly 1 rfl).symm) Nat.zero_ne_one

end TableStore

end RelationalStore
