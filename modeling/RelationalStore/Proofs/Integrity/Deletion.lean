import RelationalStore.Proofs.Integrity.Insertion
import RelationalStore.Proofs.Table.Deletion

/-!
# Deletions among all tables

A deletion reads the tables that reference the one it is about, and these are all tables
that could be linked to its rows because the lists of referencing tables are exact. What
it stores are the same tables after cells have become NULL, so that a link that is left
does not lead to a row that is gone.
-/

namespace RelationalStore

namespace TableMap

variable {tables tables' : TableMap} {t t' u : Table} {d : Deletion} {referrers : List Table}
variable {name : String} {names : List String}

/-- What a deletion makes of the tables: rows of one table go, and in the others cells
become NULL until none of their rows is linked to a row that goes. -/
structure Deleted (tables tables' : TableMap) (t : Table) (removed : List Nat) : Prop where
  shrunk : tables'.find t.name = some (t.withoutRows removed)
  absent : ∀ name, tables.find name = none → tables'.find name = none
  lapsed : ∀ name u, name ≠ t.name → tables.find name = some u →
    ∃ u', tables'.find name = some u' ∧ u.Lapsed (u.LapsesWith t.name) u' ∧
      ∀ i ∈ removed, ∀ found, t.rows[i]? = some found → ∀ fk ∈ u.foreignKeys,
        fk.table = t.name → fk.columns ≠ [] → u'.Unlinked fk t.schema found

/-- From a map all of the named tables are read, but for those that are not there. -/
theorem readAll_read (names : List String) :
    Table.readAll tables.read names = .ok (names.filterMap tables.find) := by
  induction names with
  | nil => rfl
  | cons name names ih =>
    rw [Table.readAll, ih]
    cases hfind : tables.find name with
    | none => simp [read, hfind, bind, Except.bind, pure, Except.pure]
    | some u => simp [read, hfind, bind, Except.bind, pure, Except.pure]

/-- Tables that are read under different names have different names. -/
theorem nodup_filterMap_find (h : names.Nodup) :
    ((names.filterMap tables.find).map (·.name)).Nodup := by
  rw [List.map_filterMap]
  refine h.filterMap fun a b n ha hb => ?_
  obtain ⟨u, hu, hname⟩ := Option.map_eq_some_iff.mp ha
  obtain ⟨v, hv, hname'⟩ := Option.map_eq_some_iff.mp hb
  rw [← tables.named a u hu, ← tables.named b v hv, hname, hname']

/-- The tables that a deletion looks at are kept, have different names and reference the
table. -/
theorem Sound.referrers_eq_ok (h : tables.Sound) (hfind : tables.find t.name = some t)
    (hreferrers : t.referrers tables.read = .ok referrers) :
    (referrers.map (·.name)).Nodup ∧ (∀ r ∈ referrers, tables.find r.name = some r ∧
      tables.References r.name t.name) ∧ ∀ name u, t.primaryKey ≠ [] →
        tables.find name = some u → tables.References name t.name → u ∈ referrers := by
  unfold Table.referrers at hreferrers
  split at hreferrers
  · next hempty =>
    obtain rfl := Except.ok.inj hreferrers
    exact ⟨.nil, by simp, fun _ _ hne => absurd (List.isEmpty_iff.mp hempty) hne⟩
  · rw [readAll_read] at hreferrers
    obtain rfl := Except.ok.inj hreferrers
    have hmem (name : String) :
        name ∈ t.referencedBy.keys ↔ tables.References name t.name :=
      SortedMap.mem_keys_iff_contains.trans (h.listed t.name t hfind name)
    refine ⟨nodup_filterMap_find SortedMap.nodup_keys, fun r hr => ?_,
      fun name u _ hu hrefers => ?_⟩
    · obtain ⟨name, hname, hr⟩ := List.mem_filterMap.mp hr
      obtain rfl := tables.named name r hr
      exact ⟨hr, (hmem r.name).mp hname⟩
    · exact List.mem_filterMap.mpr ⟨name, (hmem name).mpr hrefers, hu⟩

/-- The tables that a deletion looks at reference the table through keys that fit it. -/
theorem Integral.referrer (h : tables.Integral) (hfind : tables.find t.name = some t)
    (hu : tables.find name = some u) : u.Referrer t := by
  refine ⟨(h.sound name u hu).distinct, fun fk hfk htable => ?_⟩
  obtain ⟨_, target, htarget, hfits⟩ := h.targets name u hu fk hfk
  obtain rfl := Option.some.inj (hfind.symm.trans (htable ▸ htarget))
  exact hfits

/-- The tables that a deletion has looked at keep their names. -/
theorem map_name_referrers (hd : Deletion.Follows t referrers d) :
    d.referrers.map (fun x => x.1.name) = referrers.map (·.name) := by
  rw [← List.forall₂_eq_eq_eq, List.forall₂_map_left_iff, List.forall₂_map_right_iff]
  exact hd.referrers.flip.imp fun x r hx => hx.1.name_eq

/-- A deletion changes no table twice. -/
theorem nodup_changed (hd : Deletion.Follows t referrers d)
    (hnodup : (referrers.map (·.name)).Nodup) : (d.changed.map (·.name)).Nodup := by
  rw [← map_name_referrers hd] at hnodup
  rw [Deletion.changed, List.map_map]
  exact hnodup.sublist (List.filter_sublist.map _)

/-- Where the changed tables of a deletion are stored, each table that it has looked at is
found as it has become. -/
theorem find_saveAll_changed (hd : Deletion.Follows t referrers d)
    (hnodup : (referrers.map (·.name)).Nodup) {r : Table} (hr : r ∈ referrers)
    (hkept : tables.find r.name = some r) :
    ∃ x ∈ d.referrers, (tables.saveAll d.changed).find r.name = some x.1 ∧
      r.Lapsed (r.LapsesWith t.name) x.1 := by
  obtain ⟨⟨r', flag⟩, hx, hlapsed, hsame⟩ := hd.referrers.exists_right hr
  refine ⟨(r', flag), hx, ?_, hlapsed⟩
  cases flag with
  | true =>
    have hmem : r' ∈ d.changed := List.mem_map_of_mem (List.mem_filter.mpr ⟨hx, rfl⟩)
    rw [← hlapsed.name_eq]
    exact find_saveAll_of_mem (nodup_changed hd hnodup) hmem
  | false =>
    -- a table that has changed under this name would be this one, which has not
    have hothers : ∀ v ∈ d.changed, v.name ≠ r.name := by
      intro v hv hname
      obtain ⟨y, hy, rfl⟩ := List.mem_map.mp hv
      obtain ⟨hy, hflag⟩ := List.mem_filter.mp hy
      rw [← map_name_referrers hd] at hnodup
      have heq : y = (r', false) :=
        List.inj_on_of_nodup_map hnodup hy hx (hname.trans hlapsed.name_eq.symm)
      simp [heq] at hflag
    rw [find_saveAll_of_forall_ne hothers, hkept]
    exact congrArg some (hsame rfl).symm

/-- A name that the deletion has not looked at is not stored again. -/
theorem ne_of_mem_changed (hd : Deletion.Follows t referrers d)
    (hother : ∀ r ∈ referrers, r.name ≠ name) : ∀ v ∈ d.changed, v.name ≠ name := by
  intro v hv
  obtain ⟨y, hy, rfl⟩ := List.mem_map.mp hv
  obtain ⟨r, hr, hlapsed, _⟩ := hd.referrers.exists_left (List.mem_filter.mp hy).1
  rw [hlapsed.name_eq]
  exact hother r hr

/-- Storing the table again only if a row is gone leaves it as it is to be in any case. -/
theorem find_stored (hfind : tables.find t.name = some t)
    (hself : ∀ v ∈ d.changed, v.name ≠ t.name) (name : String) :
    (if d.removed.isEmpty then tables.saveAll d.changed
      else (tables.saveAll d.changed).save (t.withoutRows d.removed)).find name =
    if name = t.name then some (t.withoutRows d.removed)
      else (tables.saveAll d.changed).find name := by
  split
  · next hempty =>
    rw [List.isEmpty_iff.mp hempty, Table.withoutRows_nil]
    split
    · next hname =>
      subst hname
      rw [find_saveAll_of_forall_ne hself, hfind]
    · rfl
  · rfl

/-- A deletion that succeeds has this effect on the tables. -/
theorem Sound.deleted (h : tables.Sound) {condition : Option Condition}
    (hfind : tables.find t.name = some t)
    (hdelete : t.delete condition tables.read = .ok (t', d)) :
    tables.Deleted (if d.removed.isEmpty then tables.saveAll d.changed
      else (tables.saveAll d.changed).save t') t d.removed := by
  obtain ⟨rfl, referrers, hreferrers, hfollows⟩ := Table.delete_eq_ok hdelete
  obtain ⟨hnodup, hkept, hall⟩ := h.referrers_eq_ok hfind hreferrers
  have hd := hfollows fun r hr => h.referrer hfind (hkept r hr).1
  have hself : ∀ r ∈ referrers, r.name ≠ t.name := fun r hr hname =>
    h.not_references_self (hname ▸ (hkept r hr).2)
  have hstored := find_stored hfind (ne_of_mem_changed hd hself)
  refine ⟨?_, fun name hnone => ?_, fun name u hname hu => ?_⟩
  · rw [hstored, if_pos rfl]
  · have hname : name ≠ t.name := by
      rintro rfl
      simp [hfind] at hnone
    have hother : ∀ r ∈ referrers, r.name ≠ name := by
      rintro r hr rfl
      simp [(hkept r hr).1] at hnone
    rw [hstored, if_neg hname, find_saveAll_of_forall_ne (ne_of_mem_changed hd hother), hnone]
  · rw [hstored, if_neg hname]
    by_cases hrefers : u ∈ referrers
    · obtain rfl := tables.named name u hu
      obtain ⟨x, hx, hfound, hlapsed⟩ := find_saveAll_changed hd hnodup hrefers hu
      refine ⟨x.1, hfound, hlapsed, fun i hi found hi' fk hfk htable _ => ?_⟩
      exact hd.unlinked i hi found hi' x hx fk (hlapsed.foreignKeys_eq ▸ hfk) htable
    · -- a table that was not looked at has no foreign key with columns to this one
      have hother : ∀ r ∈ referrers, r.name ≠ name := by
        rintro r hr rfl
        exact hrefers (Option.some.inj ((hkept r hr).1.symm.trans hu) ▸ hr)
      rw [find_saveAll_of_forall_ne (ne_of_mem_changed hd hother)]
      refine ⟨u, hu, .refl u, fun i hi found hi' fk hfk htable hcolumns => ?_⟩
      have hfits := (h.referrer hfind hu).fits fk hfk htable
      have hkey := hfits.columns_ne_nil_iff.mp hcolumns
      exact absurd (hall name u hkey hu ⟨u, hu, fk, hfk, htable⟩) hrefers

variable {removed : List Nat}

/-- A deletion changes nothing about the tables but their rows. -/
theorem Deleted.sameButRows (h : tables.Deleted tables' t removed)
    (hfind : tables.find t.name = some t) : tables.SameButRows tables' := by
  have hforth (name : String) (u : Table) (hu : tables.find name = some u) :
      ∃ u', tables'.find name = some u' ∧ u' = { u with rows := u'.rows } := by
    by_cases hname : name = t.name
    · subst hname
      obtain rfl := Option.some.inj (hfind.symm.trans hu)
      exact ⟨_, h.shrunk, rfl⟩
    · obtain ⟨u', hu', hlapsed, _⟩ := h.lapsed name u hname hu
      exact ⟨u', hu', hlapsed.rest⟩
  refine ⟨hforth, fun name u' hu' => ?_⟩
  cases hu : tables.find name with
  | none =>
    rw [h.absent name hu] at hu'
    cases hu'
  | some u =>
    obtain ⟨v, hv, heq⟩ := hforth name u hu
    obtain rfl := Option.some.inj (hv.symm.trans hu')
    exact ⟨u, rfl, heq⟩

/-- Every row that is left was there before, but for cells that have become NULL, and it
is not linked to a row that is gone. -/
theorem Deleted.exists_row (h : tables.Deleted tables' t removed) (hsound : tables.Sound)
    (hfind : tables.find t.name = some t) {u u' : Table} (hu : tables.find name = some u)
    (hu' : tables'.find name = some u') {row' : Row} (hrow' : row' ∈ u'.rows) :
    ∃ row ∈ u.rows, u.schema.Lapsed (u.LapsesWith t.name) row row' ∧
      ∀ fk ∈ u.foreignKeys, fk.table = t.name → fk.columns ≠ [] →
        ∀ i ∈ removed, ∀ found, t.rows[i]? = some found →
          ¬ fk.Links u.schema row' t.schema found := by
  by_cases hname : name = t.name
  · subst hname
    obtain rfl := Option.some.inj (hfind.symm.trans hu)
    obtain rfl := Option.some.inj (h.shrunk.symm.trans hu')
    refine ⟨row', (t.withoutRows_sublist removed).subset hrow', .refl row', ?_⟩
    exact fun fk hfk htable => absurd htable (hsound.targets t.name t hu fk hfk).1
  · obtain ⟨v, hv, hlapsed, hunlinked⟩ := h.lapsed name u hname hu
    obtain rfl := Option.some.inj (hv.symm.trans hu')
    obtain ⟨row, hrow, hrowLapsed⟩ := hlapsed.rows.exists_left hrow'
    refine ⟨row, hrow, hrowLapsed, fun fk hfk htable hcolumns i hi found hi' => ?_⟩
    have hnone := hunlinked i hi found hi' fk hfk htable hcolumns row' hrow'
    rwa [hlapsed.schema_eq] at hnone

/-- A row that is not removed is still there with the same primary key. -/
theorem Deleted.exists_target (h : tables.Deleted tables' t removed) (hsound : tables.Sound)
    (hfind : tables.find t.name = some t) {target : Table} {found : Row}
    (htarget : tables.find name = some target) (hfound : found ∈ target.rows)
    (hstays : name = t.name → ∀ i ∈ removed, t.rows[i]? ≠ some found) :
    ∃ target', tables'.find name = some target' ∧ target'.schema = target.schema ∧
      ∃ found' ∈ target'.rows, ∀ column ∈ target.primaryKey,
        target.schema.value? found' column = target.schema.value? found column := by
  by_cases hname : name = t.name
  · subst hname
    obtain rfl := Option.some.inj (hfind.symm.trans htarget)
    obtain ⟨i, hi⟩ := List.mem_iff_getElem?.mp hfound
    have hmem : found ∈ (t.withoutRows removed).rows :=
      Table.mem_withoutRows_iff.mpr ⟨i, hi, fun hremoved => hstays rfl i hremoved hi⟩
    exact ⟨t.withoutRows removed, h.shrunk, rfl, found, hmem, fun _ _ => rfl⟩
  · obtain ⟨target', htarget', hlapsed, _⟩ := h.lapsed name target hname htarget
    obtain ⟨found', hfound', hrow⟩ := hlapsed.rows.exists_right hfound
    have hthere := hsound.sound name target htarget
    refine ⟨target', htarget', hlapsed.schema_eq, found', hfound', fun column hcolumn => ?_⟩
    exact hthere.value?_key_eq (fun a ha => hthere.nullable_of_lapsesWith ha) hrow hcolumn

/-- A row without NULL in its references is linked after the deletion as it was before. -/
theorem Deleted.linked (h : tables.Deleted tables' t removed) (hsound : tables.Sound)
    (hfind : tables.find t.name = some t) {u' : Table} (hu' : tables'.find name = some u')
    {row' : Row} (hrow' : row' ∈ u'.rows) (hdefinite : u'.Definite row') :
    tables'.Linked u' row' := by
  obtain ⟨u, hu, heq⟩ := (h.sameButRows hfind).back name u' hu'
  obtain ⟨row, hrow, hlapsed, hunlinked⟩ := h.exists_row hsound hfind hu hu' hrow'
  have hschema : u'.schema = u.schema := by rw [heq]
  have hforeign : u'.foreignKeys = u.foreignKeys := by rw [heq]
  rw [Table.Definite, hforeign, hschema] at hdefinite
  -- a row without NULL in its references has not lapsed in any of them
  have hvalue : ∀ fk ∈ u.foreignKeys, ∀ column ∈ fk.columns,
      u.schema.value? row' column = u.schema.value? row column :=
    fun fk hfk column hcolumn => hlapsed.value?_eq (hdefinite fk hfk column hcolumn)
  have hbefore : u.Definite row := by
    intro fk hfk column hcolumn
    rw [← hvalue fk hfk column hcolumn]
    exact hdefinite fk hfk column hcolumn
  rw [Linked, hforeign, hschema]
  intro fk hfk hcolumns
  obtain ⟨target, htarget, found, hfound, hlinks⟩ :=
    hsound.linked name u hu row hrow hbefore fk hfk hcolumns
  have hlinks' : fk.Links u.schema row' target.schema found :=
    hlinks.congr (hvalue fk hfk) fun _ _ => rfl
  have hstays : fk.table = t.name → ∀ i ∈ removed, t.rows[i]? ≠ some found := by
    intro htable i hi hremoved
    obtain rfl := Option.some.inj (hfind.symm.trans (htable ▸ htarget))
    exact hunlinked fk hfk htable hcolumns i hi found hremoved hlinks'
  obtain ⟨target', htarget', hschema', found', hfound', hkey⟩ :=
    h.exists_target hsound hfind htarget hfound hstays
  obtain ⟨_, other, hother, hfits⟩ := hsound.targets name u hu fk hfk
  obtain rfl := Option.some.inj (htarget.symm.trans hother)
  refine ⟨target', htarget', found', hfound', ?_⟩
  rw [hschema']
  exact hlinks'.congr (fun _ _ => rfl) fun column hcolumn =>
    hkey column ((hfits.covers column).mp hcolumn)

/-- Deleting rows keeps all tables sound. -/
theorem Sound.of_deleted (h : tables.Sound) (hfind : tables.find t.name = some t)
    (hdeleted : tables.Deleted tables' t removed) : tables'.Sound := by
  have hsame := hdeleted.sameButRows hfind
  refine h.of_sameButRows hsame (fun name u' hu' => ?_)
    fun name u' hu' row' hrow' hdefinite => hdeleted.linked h hfind hu' hrow' hdefinite
  obtain ⟨u, hu, _⟩ := hsame.back name u' hu'
  have hsound := h.sound name u hu
  by_cases hname : name = t.name
  · subst hname
    obtain rfl := Option.some.inj (hdeleted.shrunk.symm.trans hu')
    exact (h.sound t.name t hfind).withoutRows removed
  · obtain ⟨v, hv, hlapsed, _⟩ := hdeleted.lapsed name u hname hu
    obtain rfl := Option.some.inj (hv.symm.trans hu')
    exact hlapsed.sound (fun a ha => hsound.nullable_of_lapsesWith ha) hsound

/-- A deletion that succeeds keeps all tables sound. -/
theorem Sound.delete (h : tables.Sound) {condition : Option Condition}
    (hfind : tables.find t.name = some t)
    (hdelete : t.delete condition tables.read = .ok (t', d)) :
    (if d.removed.isEmpty then tables.saveAll d.changed
      else (tables.saveAll d.changed).save t').Sound :=
  h.of_deleted hfind (h.deleted hfind hdelete)

end TableMap

end RelationalStore
