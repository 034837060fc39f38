import RelationalStore.Proofs.Integrity.Basic
import RelationalStore.Proofs.Table.Insertion

/-!
# Changes to rows

Inserting and deleting leaves the tables as they are except for their rows, so that the
keys and the lists of referencing tables stay exact. Beyond that an insertion has to link
its row, and no row that is there loses its link by it.
-/

namespace RelationalStore

namespace TableMap

variable {tables tables' : TableMap} {t t' : Table} {name other : String}

/-- The same tables, whose rows may differ. -/
structure SameButRows (tables tables' : TableMap) : Prop where
  forth : ∀ name t, tables.find name = some t →
    ∃ t', tables'.find name = some t' ∧ t' = { t with rows := t'.rows }
  back : ∀ name t', tables'.find name = some t' →
    ∃ t, tables.find name = some t ∧ t' = { t with rows := t'.rows }

/-- Rows play no part in which table references which. -/
theorem SameButRows.references_iff (h : tables.SameButRows tables') :
    tables'.References other name ↔ tables.References other name := by
  constructor
  · rintro ⟨u', hu', fk, hfk, htable⟩
    obtain ⟨u, hu, heq⟩ := h.back other u' hu'
    rw [heq] at hfk
    exact ⟨u, hu, fk, hfk, htable⟩
  · rintro ⟨u, hu, fk, hfk, htable⟩
    obtain ⟨u', hu', heq⟩ := h.forth other u hu
    refine ⟨u', hu', fk, ?_, htable⟩
    rw [heq]
    exact hfk

/-- Other rows keep the tables sound if each table is and no reference dangles. -/
theorem Sound.of_sameButRows (h : tables.Sound) (hsame : tables.SameButRows tables')
    (hsound : ∀ name t', tables'.find name = some t' → t'.Sound)
    (hlinked : ∀ name t', tables'.find name = some t' → ∀ row ∈ t'.rows,
      t'.Definite row → tables'.Linked t' row) : tables'.Sound := by
  refine ⟨⟨hsound, fun name t' ht' fk hfk => ?_, hlinked⟩, fun name t' ht' other => ?_⟩
  · obtain ⟨t, ht, heq⟩ := hsame.back name t' ht'
    rw [heq] at hfk ⊢
    obtain ⟨hother, target, htarget, hfits⟩ := h.targets name t ht fk hfk
    obtain ⟨target', htarget', heq'⟩ := hsame.forth fk.table target htarget
    refine ⟨hother, target', htarget', hfits.congr ?_ ?_⟩
    · rw [heq']
    · rw [heq']
  · obtain ⟨t, ht, heq⟩ := hsame.back name t' ht'
    rw [hsame.references_iff, ← h.listed name t ht other, heq]

/-- Storing a table with other rows changes no other table. -/
theorem sameButRows_save (hfind : tables.find t.name = some t) (rows : List Row) :
    tables.SameButRows (tables.save { t with rows := rows }) := by
  constructor
  · intro name u hu
    by_cases hname : name = t.name
    · obtain rfl := Option.some.inj (hfind.symm.trans (hname ▸ hu))
      exact ⟨{ t with rows := rows }, by simp [save, hname], rfl⟩
    · exact ⟨u, by simp [save, hname, hu], rfl⟩
  · intro name u hu
    by_cases hname : name = t.name
    · simp only [save, hname, if_true, Option.some.injEq] at hu
      exact ⟨t, hname ▸ hfind, hu ▸ rfl⟩
    · simp only [save, hname, if_false] at hu
      exact ⟨u, hu, rfl⟩

/-- A row is linked if the check of its references has found what it looked for. -/
theorem Integral.linked_of_references (h : tables.Integral) {row : Row}
    (hfind : tables.find t.name = some t) (hdefinite : t.Definite row)
    (hreferences : (∃ fk ∈ t.foreignKeys, ∃ column ∈ fk.columns,
        t.schema.value? row column = some .null) ∨
      ∀ fk ∈ t.foreignKeys, ∃ target, tables.read fk.table = .ok (some target) ∧
        (target.schema.Distinct → fk.columns.length = fk.refColumns.length →
          ∃ found ∈ target.rows, fk.Links t.schema row target.schema found)) :
    tables.Linked t row := by
  intro fk hfk _
  rcases hreferences with ⟨fk', hfk', column, hcolumn, hnull⟩ | hreferences
  · exact absurd hnull (hdefinite fk' hfk' column hcolumn)
  · obtain ⟨target, hread, hlinks⟩ := hreferences fk hfk
    have htarget := read_eq_some_iff.mp hread
    obtain ⟨_, other, hother, hfits⟩ := h.targets t.name t hfind fk hfk
    obtain rfl := Option.some.inj (htarget.symm.trans hother)
    have hdistinct := (h.sound fk.table target htarget).distinct
    exact ⟨target, htarget, hlinks hdistinct hfits.pairs.length_eq⟩

/-- Rows that are only added take no link from a row that has one. -/
theorem Linked.append_row (hfind : tables.find t.name = some t) (row : Row) {u : Table} {r : Row}
    (h : tables.Linked u r) : (tables.save { t with rows := t.rows ++ [row] }).Linked u r := by
  intro fk hfk hcolumns
  obtain ⟨target, htarget, found, hfound, hlinks⟩ := h fk hfk hcolumns
  by_cases hname : fk.table = t.name
  · obtain rfl := Option.some.inj (hfind.symm.trans (hname ▸ htarget))
    exact ⟨{ t with rows := t.rows ++ [row] }, by simp [save, hname], found,
      List.mem_append_left _ hfound, hlinks⟩
  · exact ⟨target, by simp [save, hname, htarget], found, hfound, hlinks⟩

/-- Inserting a row keeps all tables sound. -/
theorem Sound.insert (h : tables.Sound) {columns : Option (List String)} {values : List Value}
    (hfind : tables.find t.name = some t)
    (hinsert : t.insert columns values tables.read = .ok t') : (tables.save t').Sound := by
  have ht := h.sound t.name t hfind
  obtain ⟨row, rfl, hadmits, hkey, hreferences⟩ := Table.insert_eq_ok ht.distinct hinsert
  have hsame := sameButRows_save hfind (t.rows ++ [row])
  have hnew (hdefinite : t.Definite row) : tables.Linked t row :=
    h.linked_of_references hfind hdefinite hreferences
  refine h.of_sameButRows hsame (fun name u hu => ?_) fun name u hu r hr hdefinite => ?_
  · by_cases hname : name = t.name
    · simp only [save, hname, if_true, Option.some.injEq] at hu
      exact hu ▸ ht.append_row hadmits hkey
    · simp only [save, hname, if_false] at hu
      exact h.sound name u hu
  · by_cases hname : name = t.name
    · simp only [save, hname, if_true, Option.some.injEq] at hu
      subst hu
      rcases List.mem_append.mp hr with hr | hr
      · exact (h.linked t.name t hfind r hr hdefinite).append_row hfind row
      · obtain rfl := List.mem_singleton.mp hr
        exact (hnew hdefinite).append_row hfind r
    · simp only [save, hname, if_false] at hu
      exact (h.linked name u hu r hr hdefinite).append_row hfind row

end TableMap

end RelationalStore
