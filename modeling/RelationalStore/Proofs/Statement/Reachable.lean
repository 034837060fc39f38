import RelationalStore.Proofs.Statement.Step

/-!
# Reachable catalogs

A catalog in memory is reachable when a sequence of statements leads to it from the empty
one, no matter which of the statements succeed. The only restriction is that memory never
holds a byte string of `2 ^ 63` bytes. A statement that needed one would not come to an end
on any machine, as no byte string can be that long.
-/

namespace RelationalStore

namespace TableStore

/-- What sequences of statements make of the empty catalog. -/
inductive Reachable : TableStore Memory → Prop
  | empty : Reachable ⟨Memory.empty⟩
  | execute {c : TableStore Memory} (s : Statement) (h : Reachable c)
      (hfits : FitsMemory (s.execute c).2) : Reachable (s.execute c).2

variable {c : TableStore Memory}

/-- Every byte string of a reachable catalog fits in memory. -/
theorem Reachable.fitsMemory (h : Reachable c) : c.FitsMemory := by
  cases h with
  | empty => exact fun e he => absurd he List.not_mem_nil
  | execute s _ hfits => exact hfits

/-- The catalog after statements that are executed one after another. -/
def run (c : TableStore Memory) (statements : List Statement) : TableStore Memory :=
  statements.foldl (fun c s => (s.execute c).2) c

/-- A run leads from one reachable catalog to another if memory suffices at every stage. -/
theorem Reachable.run {statements : List Statement} (h : Reachable c)
    (hfits : ∀ n ≤ statements.length, (run c (statements.take n)).FitsMemory) :
    Reachable (run c statements) := by
  induction statements generalizing c with
  | nil => exact h
  | cons s rest ih =>
    have hfirst : (s.execute c).2.FitsMemory := hfits 1 (Nat.succ_le_succ (Nat.zero_le _))
    exact ih (h.execute s hfirst) fun n hn => hfits (n + 1) (Nat.succ_le_succ hn)

/-- What every step keeps holds of the tables of every reachable catalog. -/
theorem Reachable.preserves {P : TableMap → Prop} (h : Reachable c) (hempty : P .empty)
    (hstep : ∀ tables tables', P tables → tables.Step tables' → P tables') :
    ∃ tables, Holds c tables ∧ P tables := by
  induction h with
  | empty => exact ⟨.empty, holds_empty, hempty⟩
  | execute s hreachable _ ih =>
    obtain ⟨tables, hholds, hP⟩ := ih
    obtain ⟨tables', hholds', hnext⟩ := execute_step hholds hreachable.fitsMemory s
    exact ⟨tables', hholds', hstep tables tables' hP hnext⟩

end TableStore

end RelationalStore
