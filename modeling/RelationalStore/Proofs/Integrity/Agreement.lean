import RelationalStore.Proofs.Integrity.Selection
import RelationalStore.Proofs.Integrity.Separately

/-!
# Queries and deletions with one condition

A query for whole rows of one table and a deletion from this table look at the same rows if they
have the same condition: it is evaluated on the product of one table in the one case and on the
table itself in the other. So both fail for the same cause, or the rows that the query gives are
those about which the deletion decides. The same query then finds what the deletion has blocked.
-/

namespace RelationalStore

namespace Query

variable {read : TableReader} {name : String} {t : Table}

/-- A query for whole rows of one table searches this table. -/
theorem run_whole (hfinds : Finds read ⟨name, none⟩ t) (condition : Option Condition) :
    run [⟨name, none⟩] none condition read =
      (Failure.lift (t.search condition)).map fun rows => (t.schema.map (·.name), rows) := by
  have hread : readSources read [] [⟨name, none⟩] = .ok [(t, none)] :=
    readSources_eq_ok (.cons hfinds .nil) List.nodup_nil fun _ _ => List.not_mem_nil
  have hschema : (productOf [(t, none)]).schema = t.schema := by
    rw [productOf, schema_foldl_product _ rfl, List.flatMap_singleton,
      hfinds.labelled.qualifiedSchema, Option.getD_none, hfinds.labelled.map_schema]
    rfl
  have hrows : (productOf [(t, none)]).rows = t.rows := by
    simp [productOf, Table.product, Table.unit]
  have hsearch : (productOf [(t, none)]).search condition = t.search condition := by
    rw [Table.search, Table.search, hschema, hrows]
  simp only [run, answer, hread, bind, Except.bind, hsearch, hschema]
  cases t.search condition with
  | error e => rfl
  | ok rows => rfl

end Query

namespace Deletion

variable {t : Table}

/-- Without a primary key every chosen row goes. -/
theorem foldlM_decideRow_keyless (hnil : t.primaryKey = []) (chosen : List (Row × Nat))
    (d : Deletion) :
    chosen.foldlM (decideRow t) d =
      .ok { d with removed := d.removed ++ chosen.map Prod.snd } := by
  have hstep (d : Deletion) (entry : Row × Nat) :
      d.decideRow t entry = .ok { d with removed := d.removed ++ [entry.2] } := by
    simp [decideRow, hnil]
  induction chosen generalizing d with
  | nil => simp [pure, Except.pure]
  | cons entry rest ih =>
    rw [List.foldlM_cons, hstep]
    refine (ih _).trans ?_
    simp

/-- The chosen rows that stay are those that are not counted as going. -/
theorem length_filter_not_mem {chosen : List (Row × Nat)} {removed : List Nat} {blocked : Nat}
    (hascending : (chosen.map Prod.snd).Pairwise (· < ·))
    (hremoved : removed.Sublist (chosen.map Prod.snd))
    (hcounted : removed.length + blocked = chosen.length) :
    (chosen.filter fun entry => entry.2 ∉ removed).length = blocked := by
  have hgo := length_eq_filter_mem hascending hremoved
  have hall := chosen.length_eq_length_filter_add fun entry => entry.2 ∈ removed
  simp only [← decide_not] at hall
  omega

end Deletion

namespace Table

variable {t : Table} {removed : List Nat}

/-- Of the rows that remain those with a property are found by their positions. -/
theorem filter_withoutRows (p : Row → Bool) :
    (t.withoutRows removed).rows.filter p =
      ((t.rows.zipIdx.filter fun entry => p entry.1).filter
        fun entry => entry.2 ∉ removed).map Prod.fst := by
  rw [withoutRows, List.filter_map, List.filter_filter, List.filter_filter]
  refine congrArg (List.map Prod.fst) (List.filter_congr fun entry _ => ?_)
  simp [Bool.and_comm]

/-- The rows that were not chosen remain as they were. -/
theorem filter_not_withoutRows {p : Row → Bool} {chosen : List (Row × Nat)}
    (hchosen : chosen = t.rows.zipIdx.filter fun entry => p entry.1)
    (hremoved : removed.Sublist (chosen.map Prod.snd)) :
    ((t.withoutRows removed).rows.filter fun row => !p row) = t.rows.filter fun row => !p row := by
  rw [filter_withoutRows, Condition.filter_eq_map_zipIdx t.rows]
  refine congrArg (List.map Prod.fst) (List.filter_eq_self.mpr fun entry hentry => ?_)
  obtain ⟨hentry, hp⟩ := List.mem_filter.mp hentry
  exact decide_eq_true (Deletion.not_mem_of_not_chosen hchosen hremoved hentry (by simpa using hp))

end Table

namespace TableMap

variable {tables : TableMap} {t t' : Table} {d : Deletion} {condition : Option Condition}
  {chosen : List (Row × Nat)}

/-- What a deletion decides about the chosen rows, with a primary key or without one. -/
theorem Sound.delete_account (h : tables.Sound) (hfind : tables.find t.name = some t)
    (hchosen : Condition.matching condition t.schema t.rows = .ok chosen)
    (hdelete : t.delete condition tables.read = .ok (t', d)) :
    d.removed.Sublist (chosen.map Prod.snd) ∧ d.removed.length + d.blocked = chosen.length ∧
      ∀ entry ∈ chosen, entry.2 ∉ d.removed ↔ t.primaryKey ≠ [] ∧
        t.RestrictedAfter tables.read (t.rowsAt (d.removed.filter (· < entry.2))) entry.1 := by
  by_cases hnil : t.primaryKey = []
  · have hreferrers : t.referrers tables.read = .ok [] := by simp [Table.referrers, hnil]
    simp only [Table.delete, hchosen, hreferrers, Deletion.foldlM_decideRow_keyless hnil,
      bind_eq_ok_iff, Failure.lift_eq_ok_iff, pure_eq_ok_iff, Except.ok.injEq, Prod.mk.injEq,
      exists_eq_left', List.nil_append] at hdelete
    obtain ⟨_, rfl⟩ := hdelete
    refine ⟨List.Sublist.refl _, by simp, fun entry hentry => ?_⟩
    have hgoes : entry.2 ∈ chosen.map Prod.snd := List.mem_map_of_mem hentry
    exact iff_of_false (not_not.mpr hgoes) fun hstays => hstays.1 hnil
  · obtain ⟨chosen', _, hchosen', hd, hdecided⟩ := h.exists_chosen hfind hnil hdelete
    obtain rfl := Except.ok.inj (hchosen.symm.trans hchosen')
    exact ⟨hd.removed, hd.counted, fun entry hentry =>
      (hdecided entry hentry).trans (and_iff_right hnil).symm⟩

end TableMap

/-- Gives the whole rows of one table on which a condition is true. -/
def Statement.selectAll (name : String) (condition : Option Condition) : Statement :=
  .select none [⟨name, none⟩] condition

namespace TableStore

variable {c : TableStore Memory} {name : String} {t : Table} {condition : Option Condition}

/-- A query for all columns of one table searches the table and leaves the catalog as it is. -/
theorem execute_selectAll (hfinds : Query.Finds (Catalog.load c) ⟨name, none⟩ t)
    (condition : Option Condition) :
    (Statement.selectAll name condition).execute c =
      ((Failure.lift (t.search condition)).map
        fun rows => .selected (t.schema.map (·.name)) rows, c) := by
  rw [Statement.selectAll, Statement.execute_select, Query.run_whole hfinds]
  cases t.search condition with
  | error e => rfl
  | ok rows => rfl

/-- A deletion whose rows cannot be chosen fails for the same cause and changes nothing. -/
theorem Holds.executeDelete_error {tables : TableMap} (h : Holds c tables) (hfits : c.FitsMemory)
    (hfind : tables.find t.name = some t) {e : Error}
    (hmatching : Condition.matching condition t.schema t.rows = .error e) :
    (Statement.delete t.name condition).execute c = (.error (.error e), c) := by
  have hload : Catalog.load c t.name = .ok (some t) := by rw [h.load_eq_find hfits, hfind]
  have hresult : (do
      let u ← Catalog.require c t.name
      u.delete condition (Catalog.load c)) = .error (.error e) := by
    rw [require_eq_ok_iff.mpr hload]
    simp only [bind, Except.bind, Table.delete, hmatching]
    rfl
  rw [Statement.execute_delete, Statement.executeDelete, hresult]
  rfl

/-- In a reachable catalog a query for the whole rows of a stored table and a deletion from it
with the same condition fail for the same cause, or both succeed. Then the deletion decides about
the rows that the query has given: as many are deleted or blocked. The other rows remain, in
their order, and the same query gives the blocked rows in theirs. -/
theorem Reachable.delete_agrees (h : Reachable c) (ht : Catalog.load c name = .ok (some t))
    (condition : Option Condition) :
    (∃ f, (Statement.selectAll name condition).execute c = (.error f, c) ∧
      (Statement.delete name condition).execute c = (.error f, c)) ∨
    ∃ (chosen : List (Row × Nat)) (removed : List Nat) (blocked : Nat) (c' : TableStore Memory),
      Condition.matching condition t.schema t.rows = .ok chosen ∧
      (Statement.selectAll name condition).execute c =
        (.ok (.selected (t.schema.map (·.name)) (chosen.map Prod.fst)), c) ∧
      (Statement.delete name condition).execute c = (.ok (.deleted removed.length blocked), c') ∧
      removed.length + blocked = chosen.length ∧
      removed.Sublist (chosen.map Prod.snd) ∧
      (∀ entry ∈ chosen, entry.2 ∉ removed ↔ t.primaryKey ≠ [] ∧
        t.RestrictedAfter (Catalog.load c) (t.rowsAt (removed.filter (· < entry.2))) entry.1) ∧
      Catalog.load c' name = .ok (some (t.withoutRows removed)) ∧
      ((t.withoutRows removed).rows.filter fun row => !Condition.picks condition t.schema row) =
        (t.rows.filter fun row => !Condition.picks condition t.schema row) ∧
      (chosen.filter fun entry => entry.2 ∉ removed).length = blocked ∧
      (Statement.selectAll name condition).execute c' =
        (.ok (.selected (t.schema.map (·.name))
          ((chosen.filter fun entry => entry.2 ∉ removed).map Prod.fst)), c') := by
  obtain ⟨tables, hholds, hsound⟩ := h.sound
  have hfits := h.fitsMemory
  have hfind := (hholds.load_eq_some_iff hfits).mp ht
  obtain rfl := tables.named name t hfind
  have hfinds : Query.Finds (Catalog.load c) ⟨t.name, none⟩ t := h.finds ht
  rw [execute_selectAll hfinds]
  cases hmatching : Condition.matching condition t.schema t.rows with
  | error e =>
    refine .inl ⟨.error e, ?_, hholds.executeDelete_error hfits hfind hmatching⟩
    rw [Table.search, hmatching]
    rfl
  | ok chosen =>
    right
    obtain ⟨t', d, hdelete⟩ := hsound.exists_delete hfind hmatching
    obtain ⟨c', hexecute, hholds'⟩ := hholds.executeDelete hfits hfind hdelete
    obtain ⟨hremoved, hcounted, hdecided⟩ := hsound.delete_account hfind hmatching hdelete
    have hdeleted := hsound.deleted hfind hdelete
    have hfits' := hholds.fitsMemory_of_deleted hfits hfind hdeleted hholds'
    have hload : Catalog.load c' t.name = .ok (some (t.withoutRows d.removed)) := by
      rw [hholds'.load_eq_find hfits', hdeleted.shrunk]
    have hfinds' : Query.Finds (Catalog.load c') ⟨t.name, none⟩ (t.withoutRows d.removed) :=
      ⟨hload, rfl, hfinds.labelled,
        fun row hrow => hfinds.filled row ((t.withoutRows_sublist d.removed).subset hrow)⟩
    have hchosen := Condition.matching_eq_ok hmatching
    have hsearch : (t.withoutRows d.removed).search condition =
        .ok ((chosen.filter fun entry => entry.2 ∉ d.removed).map Prod.fst) := by
      refine Table.search_eq_ok_iff.mpr ⟨?_, ?_⟩
      · rintro expr rfl row hrow
        exact Condition.exists_evaluate_of_matching hmatching
          ((t.withoutRows_sublist d.removed).subset hrow)
      · rw [hchosen]
        exact (Table.filter_withoutRows _).symm
    refine ⟨chosen, d.removed, d.blocked, c', rfl, ?_, hexecute, hcounted, hremoved, ?_, hload,
      Table.filter_not_withoutRows hchosen hremoved, ?_, ?_⟩
    · rw [Table.search, hmatching]
      rfl
    · rw [hholds.load_eq_read hfits]
      exact hdecided
    · exact Deletion.length_filter_not_mem (Condition.pairwise_of_matching hmatching) hremoved
        hcounted
    · rw [execute_selectAll hfinds', hsearch]
      rfl

/-- Of the two pairs one is deleted and the other one is blocked, and this one is found by the
query that has found both before. -/
theorem delete_agrees_sample : ∃ c' row,
    (Statement.delete "pair" none).execute (pairsIn pairRows.reverse) =
      (.ok (.deleted 1 1), c') ∧
    (Statement.selectAll "pair" none).execute c' = (.ok (.selected ["x", "y"] [row]), c') := by
  have hresult := delete_pairsIn
  rcases reachable_pairsIn.delete_agrees load_pairsIn none with ⟨f, _, hfails⟩ |
    ⟨chosen, removed, blocked, c', _, _, hdelete, _, _, _, _, _, hblocked, hselect⟩
  · rw [hfails] at hresult
    cases hresult
  · rw [hdelete] at hresult
    obtain ⟨hremoved, rfl⟩ := Outcome.deleted.inj (Except.ok.inj hresult)
    obtain ⟨entry, hentry⟩ := List.length_eq_one_iff.mp hblocked
    rw [hremoved] at hdelete
    rw [hentry] at hselect
    exact ⟨c', entry.1, hdelete, hselect⟩

end TableStore

end RelationalStore
