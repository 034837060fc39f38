import RelationalStore.Proofs.Integrity.Refusals
import RelationalStore.Proofs.Table.Acceptance

/-!
# Insertions that are accepted

Reachable tables are sound and their foreign keys lead to sound tables, so that an insertion is
accepted exactly if its row keeps to the constraints of the table. It stores the table with this
row behind the others and writes nothing else.
-/

namespace RelationalStore

namespace TableStore

variable {c c' : TableStore Memory} {tables : TableMap} {t : Table} {name : String}
  {columns : Option (List String)} {values : List Value} {outcome : Outcome}

/-- Over sound tables an insertion succeeds by storing the table with the row it has accepted. -/
theorem Holds.insert_eq_ok_iff (h : Holds c tables) (hfits : c.FitsMemory)
    (hsound : tables.Sound) :
    (Statement.insert name columns values).execute c = (.ok outcome, c') ↔
      ∃ t, tables.find name = some t ∧ t.Accepts tables.read columns values ∧
        outcome = .inserted 1 ∧
        c' = Catalog.save c { t with rows := t.rows ++ [t.completedRow columns values] } := by
  have haccepts {t t' : Table} (hfind : tables.find name = some t) :
      t.insert columns values tables.read = .ok t' ↔ t.Accepts tables.read columns values ∧
        t' = { t with rows := t.rows ++ [t.completedRow columns values] } :=
    Table.insert_eq_ok_iff (hsound.sound name t hfind) (hsound.directed hfind)
  constructor
  · intro hexecute
    rcases @executeInsert_cases c tables name columns values h hfits with
      ⟨f, hfails⟩ | ⟨t, t', _, hfind, hinsert, _⟩
    · rw [hfails] at hexecute
      cases hexecute
    · obtain ⟨hrow, rfl⟩ := (haccepts hfind).mp hinsert
      obtain rfl := tables.named name t hfind
      have hdone := h.executeInsert hfits hfind hinsert
      rw [hexecute] at hdone
      obtain ⟨houtcome, rfl⟩ := Prod.mk.inj hdone
      exact ⟨t, hfind, hrow, Except.ok.inj houtcome, rfl⟩
  · rintro ⟨t, hfind, hrow, rfl, rfl⟩
    obtain rfl := tables.named name t hfind
    exact h.executeInsert hfits hfind ((haccepts hfind).mpr ⟨hrow, rfl⟩)

/-- In a reachable catalog an insertion succeeds exactly if the table is there and accepts the
row. It then stores the table with this row at its end, and leaves what is kept under every
other key. -/
theorem Reachable.insert_accepted (h : Reachable c) (name : String)
    (columns : Option (List String)) (values : List Value) :
    ((∃ outcome, ((Statement.insert name columns values).execute c).1 = .ok outcome) ↔
      ∃ t, Catalog.load c name = .ok (some t) ∧
        t.Accepts (Catalog.load c) columns values) ∧
    ∀ outcome c', (Statement.insert name columns values).execute c = (.ok outcome, c') →
      outcome = .inserted 1 ∧ ∃ t, Catalog.load c name = .ok (some t) ∧
        ByteStore.get c'.store (keyOf name) = .ok (some (Binary.write
          { t with rows := t.rows ++ [t.completedRow columns values] })) ∧
        ∀ k, k ≠ keyOf name → ByteStore.get c'.store k = ByteStore.get c.store k := by
  obtain ⟨tables, hholds, hsound⟩ := h.sound
  have hload {t : Table} : Catalog.load c name = .ok (some t) ↔ tables.find name = some t :=
    hholds.load_eq_some_iff h.fitsMemory
  simp only [hload]
  simp only [hholds.load_eq_read h.fitsMemory]
  refine ⟨⟨?_, ?_⟩, fun outcome c' hexecute => ?_⟩
  · rintro ⟨outcome, hexecute⟩
    have hpair : (Statement.insert name columns values).execute c = (.ok outcome, _) :=
      Prod.ext hexecute rfl
    obtain ⟨t, hfind, hrow, _⟩ := (hholds.insert_eq_ok_iff h.fitsMemory hsound).mp hpair
    exact ⟨t, hfind, hrow⟩
  · rintro ⟨t, hfind, hrow⟩
    have hdone := (hholds.insert_eq_ok_iff h.fitsMemory hsound).mpr ⟨t, hfind, hrow, rfl, rfl⟩
    exact ⟨.inserted 1, by rw [hdone]⟩
  · obtain ⟨t, hfind, _, rfl, rfl⟩ := (hholds.insert_eq_ok_iff h.fitsMemory hsound).mp hexecute
    obtain rfl := tables.named name t hfind
    refine ⟨rfl, t, hfind, ?_, fun k hk => ?_⟩
    · exact congrArg Except.ok (get?_save.trans (if_pos rfl))
    · exact congrArg Except.ok (get?_save.trans (if_neg hk))

/-- A player whose columns are listed in another order is put behind the others. -/
theorem insert_accepted_sample :
    samplePlayers.Accepts (Catalog.load sample) (some ["team", "id"]) [.integer 1, .integer 9] ∧
      ¬ samplePlayers.Accepts (Catalog.load sample) (some ["team", "id"])
        [.integer 2, .integer 9] := by
  have hinserted : ((Statement.insert "player" (some ["team", "id"])
      [.integer 1, .integer 9]).execute sample).1 = .ok (.inserted 1) := by
    rw [sample_eq]
    decide +kernel
  have hrefused : ((Statement.insert "player" (some ["team", "id"])
      [.integer 2, .integer 9]).execute sample).1 = .error (.error (.insertReference "team")) := by
    rw [sample_eq]
    decide +kernel
  constructor
  · obtain ⟨t, ht, haccepts⟩ := (reachable_sample.insert_accepted "player" _ _).1.mp
      ⟨_, hinserted⟩
    obtain rfl := Option.some.inj (Except.ok.inj (load_sample.symm.trans ht))
    exact haccepts
  · intro haccepts
    obtain ⟨outcome, houtcome⟩ := (reachable_sample.insert_accepted "player" _ _).1.mpr
      ⟨samplePlayers, load_sample, haccepts⟩
    rw [hrefused] at houtcome
    cases houtcome

end TableStore

end RelationalStore
