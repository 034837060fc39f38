import RelationalStore.Proofs.Statement.Atomic

/-!
# Drops that fail halfway

The drop of a table takes its name out of the tables that it references. It reads them one
after another, and stores each of them before it reads the next. So if one cannot be read,
the drop fails, but the tables before it have lost the name of a table that is still there.
What they have lost is told by following the walk up to the first table that cannot be read.
-/

namespace RelationalStore

namespace TableStore

open Catalog
open Access (leaveTargets leaveTargets_cons)

variable {c left : TableStore Memory} {name target : String} {t u : Table}
  {before rest : List String} {k : Key}

/-- The table that is kept under a key, if what is kept there is a table. -/
def tableAt? (c : TableStore Memory) (k : Key) : Option Table :=
  (c.store.index.bindings.get? k).bind fun bytes => (Binary.decode bytes).toOption

/-- Every table is kept under its own name. -/
def OwnNames (c : TableStore Memory) : Prop :=
  ∀ k ∈ c.store.index.bindings.keys, ∀ t ∈ c.tableAt? k, k = keyOf t.name

instance : DecidablePred OwnNames := fun c =>
  inferInstanceAs (Decidable (∀ k ∈ c.store.index.bindings.keys, ∀ t ∈ c.tableAt? k, _))

/-- Under a name that has its own table, this table has the name. -/
theorem OwnNames.name_eq (h : c.OwnNames) (ht : Catalog.load c name = .ok (some t)) :
    t.name = name := by
  obtain ⟨bytes, hbytes, hdecode⟩ := exists_bytes_of_load ht
  have hkey : keyOf name ∈ c.store.index.bindings.keys := by
    rw [SortedMap.mem_keys_iff_contains, SortedMap.contains, hbytes, Option.isSome_some]
  have hsame := h (keyOf name) hkey t (by simp [tableAt?, hbytes, hdecode, Except.toOption])
  exact (keyOf_eq_iff.mp hsame).symm

/-- The table that is kept under a name lists the other name among those that reference it. -/
def Lists (c : TableStore Memory) (target name : String) : Prop :=
  ∃ u, Catalog.load c target = .ok (some u) ∧ u.referencedBy.contains name = true

/-- The second catalog is the first one after a name has been taken out of some tables. -/
structure Left (name : String) (targets : List String) (c left : TableStore Memory) : Prop where
  taken : ∀ target ∈ targets, ∀ u, Catalog.load c target = .ok (some u) →
    u.referencedBy.contains name = true →
    left.store.index.bindings.get? (keyOf target) = some (Binary.write (u.withoutReferrer name))
  kept : ∀ k, (∀ target ∈ targets, k = keyOf target → ¬ c.Lists target name) →
    left.store.index.bindings.get? k = c.store.index.bindings.get? k

/-- A target that is passed over changes nothing. -/
theorem Left.cons_of_not_lists (h : Left name rest c left) (hfree : ¬ c.Lists target name) :
    Left name (target :: rest) c left := by
  constructor
  · intro other hother u hu hlists
    rcases List.mem_cons.mp hother with rfl | hother
    · exact absurd ⟨u, hu, hlists⟩ hfree
    · exact h.taken other hother u hu hlists
  · intro k hk
    exact h.kept k fun other hother => hk other (List.mem_cons_of_mem _ hother)

/-- Leaving one target does not change what is loaded under other names. -/
theorem load_save_withoutReferrer (hname : u.name = target) {other : String}
    (hother : other ≠ target) :
    Catalog.load (save c (u.withoutReferrer name)) other = Catalog.load c other := by
  refine load_save_of_ne fun hsame => hother ?_
  rw [hsame]
  exact hname

/-- A target that lists the name is stored, and the others are as before. -/
theorem Left.cons_of_lists (h : Left name rest (save c (u.withoutReferrer name)) left)
    (hu : Catalog.load c target = .ok (some u)) (hlists : u.referencedBy.contains name = true)
    (hname : u.name = target) (hnew : target ∉ rest) : Left name (target :: rest) c left := by
  have hkey : keyOf (u.withoutReferrer name).name = keyOf target := congrArg keyOf hname
  have hsame {other : String} (hmem : other ∈ rest) :
      Catalog.load (save c (u.withoutReferrer name)) other = Catalog.load c other :=
    load_save_withoutReferrer hname (ne_of_mem_of_not_mem hmem hnew)
  constructor
  · intro other hmem v hv hcontains
    rcases List.mem_cons.mp hmem with rfl | hmem
    · obtain rfl : u = v := Option.some.inj (Except.ok.inj (hu.symm.trans hv))
      have hstored := h.kept (keyOf other) fun n hn hkey =>
        absurd (keyOf_eq_iff.mp hkey ▸ hn) hnew
      rw [hstored, get?_save, if_pos hkey.symm]
    · exact h.taken other hmem v ((hsame hmem).trans hv) hcontains
  · intro k hk
    have hne : k ≠ keyOf (u.withoutReferrer name).name := by
      intro heq
      exact hk target List.mem_cons_self (heq.trans hkey) ⟨u, hu, hlists⟩
    rw [h.kept k fun other hmem hother => ?_, get?_save, if_neg hne]
    rintro ⟨v, hv, hcontains⟩
    exact hk other (List.mem_cons_of_mem _ hmem) hother ⟨v, (hsame hmem).symm.trans hv, hcontains⟩

/-- A target that does not list the table is passed over. -/
theorem leaveTargets_cons_of_not_lists {t? : Option Table}
    (hload : Catalog.load c target = .ok t?) (hfree : ¬ c.Lists target name) :
    leaveTargets name (target :: rest) c = leaveTargets name rest c := by
  rw [leaveTargets_cons, hload]
  cases t? with
  | none => rfl
  | some u =>
    dsimp only
    exact if_neg fun hcontains => hfree ⟨u, hload, hcontains⟩

/-- A target that lists the table is saved without it before the next one is loaded. -/
theorem leaveTargets_cons_of_lists (hu : Catalog.load c target = .ok (some u))
    (hlists : u.referencedBy.contains name = true) :
    leaveTargets name (target :: rest) c =
      leaveTargets name rest (save c (u.withoutReferrer name)) := by
  rw [leaveTargets_cons, hu]
  exact if_pos hlists

/-- The walk goes through all targets that can be read. -/
theorem leaveTargets_append (name : String) (rest : List String)
    (hnames : ∀ b ∈ before, ∀ u, Catalog.load c b = .ok (some u) → u.name = b)
    (hnodup : before.Nodup) (hread : ∀ b ∈ before, ∃ t?, Catalog.load c b = .ok t?) :
    ∃ left, leaveTargets name (before ++ rest) c = leaveTargets name rest left ∧
      Left name before c left := by
  induction before generalizing c with
  | nil => exact ⟨c, rfl, by simp, fun _ _ => rfl⟩
  | cons b before ih =>
    rw [List.forall_mem_cons] at hnames hread
    obtain ⟨hnew, hnodup⟩ := List.nodup_cons.mp hnodup
    obtain ⟨t?, hload⟩ := hread.1
    by_cases hlists : c.Lists b name
    · obtain ⟨u, hu, hcontains⟩ := hlists
      have hname : u.name = b := hnames.1 u hu
      -- the rest of the walk reads what it would have read before the table was stored
      have hsame : ∀ other ∈ before,
          Catalog.load (save c (u.withoutReferrer name)) other = Catalog.load c other :=
        fun other hmem => load_save_withoutReferrer hname (ne_of_mem_of_not_mem hmem hnew)
      have hnames' : ∀ other ∈ before, ∀ v,
          Catalog.load (save c (u.withoutReferrer name)) other = .ok (some v) → v.name = other :=
        fun other hmem v hv => hnames.2 other hmem v ((hsame other hmem).symm.trans hv)
      have hread' : ∀ other ∈ before, ∃ t?,
          Catalog.load (save c (u.withoutReferrer name)) other = .ok t? :=
        fun other hmem => (hsame other hmem).symm ▸ hread.2 other hmem
      obtain ⟨left, hwalk, hleft⟩ := ih hnames' hnodup hread'
      refine ⟨left, ?_, hleft.cons_of_lists hu hcontains hname hnew⟩
      rw [List.cons_append, leaveTargets_cons_of_lists hu hcontains, hwalk]
    · obtain ⟨left, hwalk, hleft⟩ := ih hnames.2 hnodup hread.2
      refine ⟨left, ?_, hleft.cons_of_not_lists hlists⟩
      rw [List.cons_append, leaveTargets_cons_of_not_lists hload hlists, hwalk]

/-- All targets can be read, or there is a first one that cannot. -/
theorem exists_unreadable (c : TableStore Memory) (targets : List String) :
    (∀ target ∈ targets, ∃ t?, Catalog.load c target = .ok t?) ∨
      ∃ before target after, targets = before ++ target :: after ∧
        (∀ b ∈ before, ∃ t?, Catalog.load c b = .ok t?) ∧
        ∃ f, Catalog.load c target = .error f := by
  induction targets with
  | nil => exact .inl (by simp)
  | cons first rest ih =>
    cases hfirst : Catalog.load c first with
    | error f => exact .inr ⟨[], first, rest, rfl, by simp, f, hfirst⟩
    | ok t? =>
      rcases ih with hrest | ⟨before, target, after, rfl, hbefore, hunread⟩
      · exact .inl (List.forall_mem_cons.mpr ⟨⟨t?, hfirst⟩, hrest⟩)
      · exact .inr ⟨first :: before, target, after, rfl,
          List.forall_mem_cons.mpr ⟨⟨t?, hfirst⟩, hbefore⟩, hunread⟩

/-- A target that lists the name is kept in other bytes once the name is taken out of it. -/
theorem Left.get?_ne {targets : List String} (h : Left name targets c left) (hfits : c.FitsMemory)
    (hmem : target ∈ targets) (hlists : c.Lists target name) :
    left.store.index.bindings.get? (keyOf target) ≠
      c.store.index.bindings.get? (keyOf target) := by
  obtain ⟨u, hu, hcontains⟩ := hlists
  obtain ⟨bytes, hbytes, hdecode⟩ := exists_bytes_of_load hu
  rw [h.taken target hmem u hu hcontains, hbytes]
  intro hsame
  have hform : Binary.write (u.withoutReferrer name) = bytes := Option.some.inj hsame
  have hdecode' := Binary.decode_write_append (a := u.withoutReferrer name)
    (hform ▸ hfits.length_lt hbytes) []
  rw [List.append_nil, hform, hdecode] at hdecode'
  have heq : u = u.withoutReferrer name := Except.ok.inj hdecode'
  have hgone : ¬ (u.withoutReferrer name).referencedBy.contains name = true :=
    fun hlisted => (NameSet.contains_erase_iff.mp hlisted).1 rfl
  rw [← heq] at hgone
  exact hgone hcontains

/-- The drop of a table that nothing references goes through the tables that it references
and comes to one that cannot be read. -/
structure Torn (c : TableStore Memory) (name : String) (before : List String) (target : String) :
    Prop where
  dropped : ∃ t, Catalog.load c name = .ok (some t) ∧ t.referencedBy.keys = [] ∧
    ∃ after, (t.foreignKeys.map (·.table)).eraseDups = before ++ target :: after
  readable : ∀ b ∈ before, ∃ t?, Catalog.load c b = .ok t?
  unreadable : ∃ f, Catalog.load c target = .error f

/-- Where the drop comes to a table that cannot be read, it fails with what it has done. -/
theorem Torn.executeDrop (h : c.Torn name before target) (hnames : c.OwnNames) :
    ∃ f left, Statement.executeDrop c name = (.error f, left) ∧ Left name before c left := by
  obtain ⟨t, ht, hfree, after, hsplit⟩ := h.dropped
  obtain ⟨f, hunread⟩ := h.unreadable
  obtain rfl := hnames.name_eq ht
  have hnodup := nodup_eraseDups (t.foreignKeys.map (·.table))
  rw [hsplit] at hnodup
  obtain ⟨hbefore, _, hapart⟩ := List.nodup_append.mp hnodup
  obtain ⟨left, hwalk, hleft⟩ := leaveTargets_append t.name (target :: after)
    (fun b _ u hu => hnames.name_eq hu) hbefore h.readable
  -- the target itself has not been stored on the way, and so it still cannot be read
  have hsame : Catalog.load left target = .error f := by
    rw [← hunread]
    refine load_congr (hleft.kept _ fun b hb hkey => ?_)
    exact absurd (keyOf_eq_iff.mp hkey).symm (hapart b hb target List.mem_cons_self)
  refine ⟨f, left, ?_, hleft⟩
  rw [Statement.executeDrop, require_eq_ok_iff.mpr ht]
  simp only [hfree, List.isEmpty_nil, if_true, hsplit, hwalk, leaveTargets_cons, hsame]

/-- A drop fails without a trace, or it succeeds, or it comes to a table that cannot be
read. -/
theorem executeDrop_cases (hnames : c.OwnNames) (name : String) :
    (∃ f, Statement.executeDrop c name = (.error f, c)) ∨
      (∃ outcome left, Statement.executeDrop c name = (.ok outcome, left)) ∨
      ∃ before target, c.Torn name before target := by
  unfold Statement.executeDrop
  cases hrequire : require c name with
  | error f => exact .inl ⟨f, rfl⟩
  | ok t =>
    have ht := require_eq_ok_iff.mp hrequire
    obtain rfl := hnames.name_eq ht
    dsimp only
    by_cases hunlisted : t.referencedBy.keys.isEmpty = true
    · right
      rw [if_pos hunlisted]
      rcases exists_unreadable c (t.foreignKeys.map (·.table)).eraseDups with
        hread | ⟨before, target, after, hsplit, hread, hunread⟩
      · obtain ⟨left, hwalk, _⟩ := leaveTargets_append t.name []
          (fun b _ u hu => hnames.name_eq hu) (nodup_eraseDups _) hread
        rw [List.append_nil, leaveTargets] at hwalk
        rw [hwalk]
        exact .inl ⟨_, _, rfl⟩
      · exact .inr ⟨before, target,
          ⟨t, ht, List.isEmpty_iff.mp hunlisted, after, hsplit⟩, hread, hunread⟩
    · rw [if_neg hunlisted]
      exact .inl ⟨_, rfl⟩

/-- The drop of a table fails and yet changes what is kept exactly if it takes the name of
the table out of another one and then comes to one that cannot be read. -/
theorem drop_torn_iff (hfits : c.FitsMemory) (hnames : c.OwnNames) :
    (∃ f k, ((Statement.dropTable name).execute c).1 = .error f ∧
        ByteStore.get ((Statement.dropTable name).execute c).2.store k ≠
          ByteStore.get c.store k) ↔
      ∃ before target, c.Torn name before target ∧ ∃ b ∈ before, c.Lists b name := by
  have hexecute : (Statement.dropTable name).execute c = Statement.executeDrop c name :=
    Statement.execute_dropTable name
  have hget (left : TableStore Memory) (k : Key) : ByteStore.get left.store k =
      ByteStore.get c.store k ↔
        left.store.index.bindings.get? k = c.store.index.bindings.get? k :=
    ⟨fun h => Except.ok.inj h, fun h => congrArg Except.ok h⟩
  rw [hexecute]
  constructor
  · rintro ⟨f, k, hfails, hchanged⟩
    rcases executeDrop_cases hnames name with ⟨f', h⟩ | ⟨outcome, left, h⟩ | ⟨before, target, htorn⟩
    · rw [h] at hchanged
      exact absurd rfl hchanged
    · rw [h] at hfails
      cases hfails
    · refine ⟨before, target, htorn, ?_⟩
      obtain ⟨_, left, h, hleft⟩ := htorn.executeDrop hnames
      rw [h] at hchanged
      by_contra hnone
      push Not at hnone
      exact hchanged ((hget left k).mpr (hleft.kept k fun b hb _ => hnone b hb))
  · rintro ⟨before, target, htorn, b, hb, hlists⟩
    obtain ⟨f, left, h, hleft⟩ := htorn.executeDrop hnames
    rw [h]
    exact ⟨f, keyOf b, rfl, fun hsame => hleft.get?_ne hfits hb hlists ((hget left _).mp hsame)⟩

/-- A catalog of three tables, the third of which references the other two. The bytes of the
second have been spoiled. -/
def spoiledHall : TableStore Memory :=
  let intact := run ⟨Memory.empty⟩
    [.createTable "team" [(ColumnDefinition.plain "id" .integer).asPrimaryKey] [],
      .createTable "hall" [(ColumnDefinition.plain "id" .integer).asPrimaryKey] [],
      .createTable "game" [.plain "team" .integer, .plain "hall" .integer]
        [.foreignKey ["team"] "team" ["id"], .foreignKey ["hall"] "hall" ["id"]]]
  ⟨ByteStore.set intact.store (keyOf "hall") [255]⟩

/-- The hall cannot be decoded, and so the game is not dropped. -/
theorem dropGame_fails : ((Statement.dropTable "game").execute spoiledHall).1 =
    .error (.error (.decode "malformed value")) := by
  decide +kernel

/-- The team has been saved without the game all the same. -/
theorem dropGame_changes : ByteStore.get ((Statement.dropTable "game").execute spoiledHall).2.store
    (keyOf "team") ≠ ByteStore.get spoiledHall.store (keyOf "team") := by
  decide +kernel

/-- The hall is where the drop stops, and the team in front of it is torn. -/
theorem drop_torn_sample : ∃ before target, spoiledHall.Torn "game" before target ∧
    ∃ b ∈ before, spoiledHall.Lists b "game" := by
  have hfits : spoiledHall.FitsMemory := by decide +kernel
  have hnames : spoiledHall.OwnNames := by decide +kernel
  exact (drop_torn_iff hfits hnames).mp ⟨_, keyOf "team", dropGame_fails, dropGame_changes⟩

/-- The drop fails at the table that cannot be read, but another one does not list the
dropped table any more. -/
theorem drop_not_atomic : ¬ ∀ (c : TableStore Memory) (name : String) (f : Failure),
    ((Statement.dropTable name).execute c).1 = .error f →
      ∀ k, ByteStore.get ((Statement.dropTable name).execute c).2.store k =
        ByteStore.get c.store k := by
  intro hatomic
  exact dropGame_changes (hatomic spoiledHall "game" _ dropGame_fails (keyOf "team"))

end TableStore

end RelationalStore
