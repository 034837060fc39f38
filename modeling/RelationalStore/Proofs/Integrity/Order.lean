import Mathlib.Algebra.Order.BigOperators.Group.List
import Mathlib.Algebra.Order.Group.Nat
import Mathlib.Logic.Relation
import RelationalStore.Proofs.Integrity.Runs

/-!
# The order of tables

A foreign key leads to a table that is there before its own table is defined, and that
cannot be dropped as long as it is referenced. So the tables can be put on levels, each
above those that it references, although nothing of the kind is stored. It follows that no
chain of references comes back to where it started, and that the tables can be dropped one
after another, those on the highest level first.
-/

namespace RelationalStore

namespace TableMap

/-- Each table is on a higher level than those that it references. -/
def Leveled (tables : TableMap) (level : String → Nat) : Prop :=
  ∀ other name, tables.References other name → level name < level other

variable {tables tables' : TableMap} {t : Table} {level : String → Nat} {name other : String}

/-- Without tables any levels will do. -/
theorem leveled_empty : empty.Leveled level := by
  rintro other name ⟨u, hu, _⟩
  cases hu

/-- The levels serve as long as no reference is added. -/
theorem Leveled.mono (h : tables.Leveled level)
    (hrefers : ∀ other name, tables'.References other name → tables.References other name) :
    tables'.Leveled level :=
  fun other name hother => h other name (hrefers other name hother)

/-- A chain of references only leads downwards. -/
theorem Leveled.lt_of_transGen (h : tables.Leveled level)
    (hchain : Relation.TransGen tables.References other name) : level name < level other := by
  induction hchain with
  | single hrefers => exact h _ _ hrefers
  | tail _ hrefers ih => exact (h _ _ hrefers).trans ih

/-- A new table is put above all tables that it references, and nothing references it. -/
theorem Leveled.save (h : tables.Leveled level) (hintegral : tables.Integral)
    (hnew : tables.find t.name = none)
    (htargets : ∀ fk ∈ t.foreignKeys, (tables.find fk.table).isSome = true) :
    ∃ level', (tables.save t).Leveled level' := by
  let above := (t.foreignKeys.map fun fk => level fk.table).sum + 1
  refine ⟨Function.update level t.name above, fun other name hrefers => ?_⟩
  rcases (references_save_iff hnew).mp hrefers with ⟨rfl, hname⟩ | hrefers
  · obtain ⟨fk, hfk, rfl⟩ := List.mem_map.mp hname
    have hne : fk.table ≠ t.name := by
      intro heq
      have hsome := htargets fk hfk
      rw [heq, hnew] at hsome
      cases hsome
    have hlevel : level fk.table ≤ (t.foreignKeys.map fun fk => level fk.table).sum :=
      List.le_sum_of_mem (List.mem_map_of_mem hfk)
    rw [Function.update_self, Function.update_of_ne hne]
    exact Nat.lt_succ_of_le hlevel
  · have hname : name ≠ t.name := by
      rintro rfl
      exact hintegral.not_references hnew hrefers
    have hother : other ≠ t.name := by
      rintro rfl
      obtain ⟨u, hu, _⟩ := hrefers
      rw [hnew] at hu
      cases hu
    rw [Function.update_of_ne hname, Function.update_of_ne hother]
    exact h other name hrefers

/-- Every step leaves tables that can be put on levels, if it has found such tables. -/
theorem Leveled.step (h : tables.Leveled level) (hsound : tables.Sound)
    (hstep : tables.Step tables') : ∃ level', tables'.Leveled level' := by
  cases hstep with
  | stay => exact ⟨level, h⟩
  | @create n columns constraints t entered hnew hdefine =>
    obtain ⟨ht, targets, htargets, rfl⟩ := Table.define_eq_ok
      (fun n u hu => tables.named n u (read_eq_some_iff.mp hu)) hdefine
    obtain rfl := ht.name_eq
    rw [saveAll_entered htargets]
    have hentered : (tables.enter t.name (t.foreignKeys.map (·.table))).Leveled level :=
      h.mono fun _ _ => references_relist_iff.mp
    refine hentered.save (hsound.relist _) (by simp [enter, relist, hnew]) fun fk hfk => ?_
    obtain ⟨u, hu, hname, _⟩ := htargets.fits fk hfk
    have hfind := read_eq_some_iff.mp (htargets.stored u hu)
    rw [hname] at hfind
    simp [enter, relist, hfind]
  | drop hfind _ =>
    refine ⟨level, h.mono fun _ _ hrefers => ?_⟩
    exact references_relist_iff.mp (references_remove_iff.mp hrefers).2
  | @insert t t' columns values hfind hinsert =>
    obtain ⟨row, rfl, _⟩ := Table.insert_eq_ok (hsound.sound t.name t hfind).distinct hinsert
    exact ⟨level, h.mono fun _ _ => (sameButRows_save hfind _).references_iff.mp⟩
  | delete hfind hdelete =>
    have hsame := (hsound.deleted hfind hdelete).sameButRows hfind
    exact ⟨level, h.mono fun _ _ => hsame.references_iff.mp⟩

/-- An order in which tables can be dropped: each table comes before those that it
references. -/
structure DropOrder (tables : TableMap) (order : List String) : Prop where
  nodup : order.Nodup
  mem_iff : ∀ name, name ∈ order ↔ (tables.find name).isSome = true
  backward : order.Pairwise fun a b => ¬ tables.References b a

/-- The names of the tables are ordered by their levels, the highest first. -/
theorem Leveled.exists_dropOrder (h : tables.Leveled level) {names : List String}
    (hnodup : names.Nodup) (hnames : ∀ name, name ∈ names ↔ (tables.find name).isSome = true) :
    ∃ order, tables.DropOrder order := by
  let above := fun a b => decide (level b ≤ level a)
  have hperm := List.mergeSort_perm names above
  refine ⟨names.mergeSort above, hperm.nodup_iff.mpr hnodup, fun name => ?_, ?_⟩
  · rw [hperm.mem_iff, hnames name]
  · have hsorted := @List.pairwise_mergeSort _ above
      (fun a b c hab hbc => by
        simp only [above, decide_eq_true_eq] at hab hbc ⊢
        exact hbc.trans hab)
      (fun a b => by
        simp only [above, Bool.or_eq_true, decide_eq_true_eq]
        exact Nat.le_total _ _)
      names
    refine hsorted.imp fun {a b} hab hrefers => ?_
    have hlt := h b a hrefers
    simp only [above, decide_eq_true_eq] at hab
    omega

/-- Nothing references the first table of the order. -/
theorem DropOrder.not_references {order : List String} (h : tables.DropOrder (name :: order))
    (hintegral : tables.Integral) (other : String) : ¬ tables.References other name := by
  intro hrefers
  have hstored : (tables.find other).isSome = true := by
    obtain ⟨u, hu, _⟩ := hrefers
    rw [hu, Option.isSome_some]
  have hmem := (h.mem_iff other).mpr hstored
  rcases List.mem_cons.mp hmem with rfl | hmem
  · exact hintegral.not_references_self hrefers
  · exact (List.pairwise_cons.mp h.backward).1 other hmem hrefers

/-- Without the first table the rest of the order is one for the tables that are left. -/
theorem DropOrder.tail {order : List String} {change : String → NameSet → NameSet}
    (h : tables.DropOrder (name :: order)) :
    ((tables.relist change).remove name).DropOrder order := by
  obtain ⟨hnew, hnodup⟩ := List.nodup_cons.mp h.nodup
  refine ⟨hnodup, fun other => ?_, ?_⟩
  · have hmem := h.mem_iff other
    rw [List.mem_cons] at hmem
    by_cases hother : other = name
    · subst hother
      simp [remove, hnew]
    · simpa [remove, relist, hother] using hmem
  · refine (List.pairwise_cons.mp h.backward).2.imp fun {a b} hab hrefers => hab ?_
    exact references_relist_iff.mp (references_remove_iff.mp hrefers).2

end TableMap

namespace TableStore

variable {c : TableStore Memory} {tables : TableMap} {t : Table} {name : String}
  {order : List String}

/-- The tables of a reachable catalog can be put on levels. -/
theorem Reachable.leveled (h : Reachable c) :
    ∃ tables, Holds c tables ∧ tables.Sound ∧ ∃ level, tables.Leveled level := by
  refine h.preserves (P := fun tables => tables.Sound ∧ ∃ level, tables.Leveled level) ?_ ?_
  · exact ⟨TableMap.sound_empty, fun _ => 0, TableMap.leveled_empty⟩
  · rintro tables tables' ⟨hsound, level, hleveled⟩ hstep
    exact ⟨hsound.step hstep, hleveled.step hsound hstep⟩

/-- A drop leaves no table with a longer form than before. -/
theorem Holds.fitsMemory_of_drop {c' : TableStore Memory} {targets : List String}
    (h : Holds c tables) (hfits : c.FitsMemory)
    (h' : Holds c' ((tables.leave name targets).remove name)) : c'.FitsMemory := by
  refine h.fitsMemory_of_length_le hfits h' fun other u hu => ?_
  obtain ⟨_, hu⟩ := TableMap.find_remove_eq_some_iff.mp hu
  obtain ⟨v, hv, rfl⟩ := TableMap.find_relist_eq_some_iff.mp hu
  refine ⟨v, hv, Binary.length_write_le_of_referencedBy ?_⟩
  split
  · exact List.filter_sublist
  · exact List.Sublist.refl _

/-- Dropping the tables in their order succeeds with each of them and leaves none. -/
theorem run_drops (h : Holds c tables) (hfits : c.FitsMemory) (hsound : tables.Sound)
    (horder : tables.DropOrder order) :
    (∀ before name after, order = before ++ name :: after →
      ((Statement.dropTable name).execute (run c (before.map .dropTable))).1 =
        .ok (.dropped name)) ∧
    (run c (order.map .dropTable)).store.index.bindings.entries = [] := by
  induction order generalizing c tables with
  | nil =>
    refine ⟨fun before name after heq => ?_, List.eq_nil_iff_forall_not_mem.mpr fun e he => ?_⟩
    · simp at heq
    · obtain ⟨t, hfind, _⟩ := h.exists_of_mem he
      have hmem := (horder.mem_iff t.name).mpr (by rw [hfind, Option.isSome_some])
      cases hmem
  | cons first rest ih =>
    obtain ⟨t, hfind⟩ := Option.isSome_iff_exists.mp
      ((horder.mem_iff first).mp List.mem_cons_self)
    obtain rfl := tables.named first t hfind
    have hunreferenced : t.referencedBy.keys = [] := by
      refine List.eq_nil_iff_forall_not_mem.mpr fun other hmem => ?_
      have hlisted := (hsound.listed t.name t hfind other).mp
        (SortedMap.mem_keys_iff_contains.mp hmem)
      exact horder.not_references hsound.toIntegral other hlisted
    obtain ⟨c', hdrop, hholds⟩ := h.executeDrop hfits hfind hunreferenced
    have hexecute : (Statement.dropTable t.name).execute c = (.ok (.dropped t.name), c') := hdrop
    obtain ⟨hrest, hempty⟩ := ih hholds (h.fitsMemory_of_drop hfits hholds)
      (hsound.drop hfind hunreferenced) horder.tail
    have hrun : ∀ names : List String,
        run c ((t.name :: names).map .dropTable) = run c' (names.map .dropTable) := by
      intro names
      simp only [run, List.map_cons, List.foldl_cons, hexecute]
    refine ⟨fun before name after heq => ?_, ?_⟩
    · cases before with
      | nil =>
        obtain ⟨rfl, -⟩ := List.cons.inj heq
        exact congrArg Prod.fst hexecute
      | cons first before =>
        obtain ⟨rfl, hafter⟩ := List.cons.inj heq
        rw [hrun]
        exact hrest before name after hafter
    · rw [hrun]
      exact hempty

/-- The table that is stored under the first name has a foreign key to the second one. -/
def References (c : TableStore Memory) (other name : String) : Prop :=
  ∃ u, Catalog.load c other = .ok (some u) ∧ ∃ fk ∈ u.foreignKeys, fk.table = name

/-- In a reachable catalog no chain of foreign keys leads from a table back to itself, and
there is an order of all stored tables in which every one is dropped with success when its
turn comes, so that nothing is stored at the end. -/
theorem Reachable.droppable (h : Reachable c) :
    (∀ name, ¬ Relation.TransGen c.References name name) ∧
    ∃ order : List String, order.Nodup ∧ (∀ name, name ∈ order ↔ Catalog.has c name = true) ∧
      (∀ before name after, order = before ++ name :: after →
        ((Statement.dropTable name).execute (TableStore.run c (before.map .dropTable))).1 =
          .ok (.dropped name)) ∧
      (TableStore.run c (order.map .dropTable)).store.index.bindings.entries = [] := by
  obtain ⟨tables, hholds, hsound, level, hleveled⟩ := h.leveled
  constructor
  · intro name hcycle
    have hrefers : ∀ other target, c.References other target → tables.References other target := by
      rintro other target ⟨u, hu, hfk⟩
      exact ⟨u, (hholds.load_eq_some_iff h.fitsMemory).mp hu, hfk⟩
    have hchain : Relation.TransGen tables.References name name :=
      Relation.TransGen.mono hrefers _ _ hcycle
    exact Nat.lt_irrefl _ (hleveled.lt_of_transGen hchain)
  · obtain ⟨names, _, hascending, hnames⟩ := hholds.exists_names
    have hnodup : names.Nodup := by
      refine hascending.imp fun {a b} hlt heq => ?_
      have hrefl : compare (Bytes.ofText b) (Bytes.ofText b) = .eq := Std.ReflCmp.compare_self
      rw [heq, hrefl] at hlt
      cases hlt
    obtain ⟨order, horder⟩ := hleveled.exists_dropOrder hnodup hnames
    refine ⟨order, horder.nodup, fun name => ?_, run_drops hholds h.fitsMemory hsound horder⟩
    rw [horder.mem_iff name, Option.isSome_iff_exists, hholds.has_iff]

/-- In the sample the table with the foreign key is not referenced back, and some order of
its two tables empties it. -/
theorem droppable_sample : ¬ Relation.TransGen sample.References "player" "player" ∧
    ∃ order : List String, "player" ∈ order ∧
      (run sample (order.map .dropTable)).store.index.bindings.entries = [] := by
  obtain ⟨hacyclic, order, _, hmem, _, hempty⟩ := reachable_sample.droppable
  have hplayer : Catalog.has sample "player" = true := by
    rw [sample_eq]
    decide +kernel
  exact ⟨hacyclic "player", order, (hmem "player").mpr hplayer, hempty⟩

end TableStore

end RelationalStore
