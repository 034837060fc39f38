import Mathlib.Logic.Basic
import RelationalStore.Proofs.Statement.Commit

/-!
# Catalogs that cannot be told apart

A request to a catalog only loads, saves and removes tables, asks whether one is there and
lists their names. So what all saving and removing keeps, every request keeps. And two
catalogs that answer these basic operations alike, and do so again after the same table has
been saved or removed, answer all requests alike.
-/

namespace RelationalStore

open Catalog

/-- What can be asked of a catalog. -/
inductive CatalogRequest where
  | execute (s : Statement)
  | save (t : Table)
  | remove (name : String)
  | load (name : String)
  | has (name : String)
  | names

/-- What a catalog answers. -/
inductive CatalogAnswer where
  | executed (result : Except Failure Outcome)
  | done
  | loaded (result : Except Failure (Option Table))
  | present (answer : Bool)
  | listed (result : Except Failure (List String))

namespace CatalogRequest

variable {κ : Type} [Catalog κ]

/-- The answer to a request and the catalog after it. -/
def perform (c : κ) : CatalogRequest → CatalogAnswer × κ
  | execute s => (.executed (s.execute c).1, (s.execute c).2)
  | save t => (.done, Catalog.save c t)
  | remove name => (.done, Catalog.remove c name)
  | load name => (.loaded (Catalog.load c name), c)
  | has name => (.present (Catalog.has c name), c)
  | names => (.listed (Catalog.names c), c)

/-- The answers to requests that are made one after another, and the catalog after them. -/
def performAll : κ → List CatalogRequest → List CatalogAnswer × κ
  | c, [] => ([], c)
  | c, q :: rest =>
    ((q.perform c).1 :: (performAll (q.perform c).2 rest).1, (performAll (q.perform c).2 rest).2)

end CatalogRequest

namespace Catalog

section Committing

variable {α κ κ' : Type} {result : Except Failure α} {finish : α → Outcome × κ}
  {finish' : α → Outcome × κ'} {c : κ} {d : κ'}

/-- What holds of the catalog, and of every catalog with which a result is finished, holds after
the commit. -/
theorem commit_of_forall {P : κ → Prop} (h : P c) (hfinish : ∀ a, P (finish a).2) :
    P (Access.commit c result finish).2 := by
  cases result with
  | error f => exact h
  | ok a => exact hfinish a

/-- Two statements that have come to the same result differ only in what they go on with. -/
theorem commit_related {R : κ → κ' → Prop} {Good : κ' → Prop} (h : R c d)
    (hfinish : ∀ a, Good (finish' a).2 →
      (finish a).1 = (finish' a).1 ∧ R (finish a).2 (finish' a).2)
    (hgood : Good (Access.commit d result finish').2) :
    (Access.commit c result finish).1 = (Access.commit d result finish').1 ∧
      R (Access.commit c result finish).2 (Access.commit d result finish').2 := by
  cases result with
  | error f => exact ⟨rfl, h⟩
  | ok a =>
    obtain ⟨houtcome, hnext⟩ := hfinish a hgood
    exact ⟨congrArg Except.ok houtcome, hnext⟩

end Committing

section Preservation

variable {κ : Type} [Catalog κ] {c : κ}

/-- Saving and removing tables keeps a property of catalogs. -/
structure Keeps (P : κ → Prop) : Prop where
  save : ∀ c t, P c → P (save c t)
  remove : ∀ c name, P c → P (remove c name)

variable {P : κ → Prop}

/-- What all saving keeps, saving several tables keeps. -/
theorem Keeps.saveAll (hP : Keeps P) {tables : List Table} (h : P c) : P (saveAll c tables) := by
  induction tables generalizing c with
  | nil => exact h
  | cons t tables ih => exact ih (hP.save c t h)

/-- What all saving keeps holds after some targets have been left, wherever that stops. -/
theorem Keeps.leaveTargets (hP : Keeps P) {name : String} {targets : List String} (h : P c) :
    P (Access.leaveTargets name targets c).2 := by
  induction targets generalizing c with
  | nil => exact h
  | cons target targets ih =>
    rw [Access.leaveTargets_cons]
    split
    · exact h
    · exact ih h
    · split
      · exact ih (hP.save c _ h)
      · exact ih h

/-- What all saving and removing keeps holds after a table has been dropped or not. -/
theorem Keeps.executeDrop (hP : Keeps P) (h : P c) (name : String) :
    P (Statement.executeDrop c name).2 := by
  unfold Statement.executeDrop
  split
  · exact h
  · next t _ =>
    split
    · have hleft : P (Access.leaveTargets t.name (t.foreignKeys.map (·.table)).eraseDups c).2 :=
        hP.leaveTargets h
      split
      · next hresult => exact (hresult ▸ hleft : P (_, _).2)
      · next hresult => exact hP.remove _ _ (hresult ▸ hleft : P (_, _).2)
    · exact h

/-- What all saving and removing keeps, every statement keeps. -/
theorem Keeps.execute (hP : Keeps P) (h : P c) (s : Statement) : P (s.execute c).2 := by
  cases s with
  | createTable name columns constraints =>
    have hcreate : P (Statement.executeCreate c name columns constraints).2 := by
      unfold Statement.executeCreate
      split
      · exact h
      · exact commit_of_forall h fun a => hP.save _ _ (hP.saveAll h)
    rwa [Statement.execute_createTable]
  | dropTable name =>
    rw [Statement.execute_dropTable]
    exact hP.executeDrop h name
  | describe name => rwa [Statement.execute_describe]
  | showTables => rwa [Statement.execute_showTables]
  | insert table columns values =>
    have hinsert : P (Statement.executeInsert c table columns values).2 :=
      commit_of_forall h fun a => hP.save _ _ h
    rwa [Statement.execute_insert]
  | delete table condition =>
    have hdelete : P (Statement.executeDelete c table condition).2 := by
      refine commit_of_forall h fun a => ?_
      have hcascaded : P (Catalog.saveAll c a.2.changed) := hP.saveAll h
      dsimp only
      split
      · exact hcascaded
      · exact hP.save _ _ hcascaded
    rwa [Statement.execute_delete]
  | select projection sources condition => rwa [Statement.execute_select]

/-- What all saving and removing keeps, every request keeps. -/
theorem Keeps.perform (hP : Keeps P) (h : P c) (q : CatalogRequest) : P (q.perform c).2 := by
  cases q with
  | execute s => exact hP.execute h s
  | save t => exact hP.save c t h
  | remove name => exact hP.remove c name h
  | load name => exact h
  | has name => exact h
  | names => exact h

/-- What all saving and removing keeps holds after any number of requests. -/
theorem Keeps.performAll (hP : Keeps P) {requests : List CatalogRequest} (h : P c) :
    P (CatalogRequest.performAll c requests).2 := by
  induction requests generalizing c with
  | nil => exact h
  | cons q rest ih => exact ih (hP.perform h q)

end Preservation

section Simulation

variable {κ κ' : Type} [Catalog κ] [Catalog κ']

/-- Catalogs that are related answer alike, and are related again after the same table has
been saved or removed, as long as the second one then is good. -/
structure Simulation (R : κ → κ' → Prop) (Good : κ' → Prop) : Prop where
  load_eq : ∀ c d, R c d → load c = load d
  has_eq : ∀ c d, R c d → has c = has d
  names_eq : ∀ c d, R c d → names c = names d
  save : ∀ c d t, R c d → Good (save d t) → R (save c t) (save d t)
  remove : ∀ c d name, R c d → R (remove c name) (remove d name)
  /-- A catalog that is not good does not become so, and so one that is good at the end of a
  run has been so all the time. -/
  bad : Keeps fun d => ¬ Good d

variable {R : κ → κ' → Prop} {Good : κ' → Prop} {c : κ} {d : κ'}

/-- Catalogs that are related stay so when the same tables are saved. -/
theorem Simulation.saveAll (hS : Simulation R Good) {tables : List Table} (h : R c d)
    (hgood : Good (saveAll d tables)) : R (saveAll c tables) (saveAll d tables) := by
  induction tables generalizing c d with
  | nil => exact h
  | cons t tables ih =>
    have hfirst : Good (Catalog.save d t) := not_imp_not.mp hS.bad.saveAll hgood
    exact ih (hS.save c d t h hfirst) hgood

/-- Catalogs that are related have the same tables, and miss them with the same error. -/
theorem Simulation.require_eq (hS : Simulation R Good) (h : R c d) (name : String) :
    require c name = require d name := by
  rw [require, require, hS.load_eq c d h]

/-- Leaving targets stops at the same place in catalogs that are related, and they stay so. -/
theorem Simulation.leaveTargets (hS : Simulation R Good) {name : String}
    {targets : List String} (h : R c d) (hgood : Good (Access.leaveTargets name targets d).2) :
    (Access.leaveTargets name targets c).1 = (Access.leaveTargets name targets d).1 ∧
      R (Access.leaveTargets name targets c).2 (Access.leaveTargets name targets d).2 := by
  induction targets generalizing c d with
  | nil => exact ⟨rfl, h⟩
  | cons target targets ih =>
    rw [Access.leaveTargets_cons] at hgood ⊢
    rw [Access.leaveTargets_cons]
    rw [hS.load_eq c d h]
    cases hload : Catalog.load d target with
    | error f => exact ⟨rfl, h⟩
    | ok found =>
      simp only [hload] at hgood
      cases found with
      | none => exact ih h hgood
      | some t =>
        by_cases hlisted : t.referencedBy.contains name = true
        · simp only [hlisted, if_true] at hgood ⊢
          have hfirst : Good (Catalog.save d (t.withoutReferrer name)) :=
            not_imp_not.mp hS.bad.leaveTargets hgood
          exact ih (hS.save c d _ h hfirst) hgood
        · simp only [hlisted] at hgood ⊢
          exact ih h hgood

/-- Catalogs that are related create a table alike, and stay so. -/
theorem Simulation.executeCreate (hS : Simulation R Good) (h : R c d) {name : String}
    {columns : List ColumnDefinition} {constraints : List TableConstraint}
    (hgood : Good (Statement.executeCreate d name columns constraints).2) :
    (Statement.executeCreate c name columns constraints).1 =
        (Statement.executeCreate d name columns constraints).1 ∧
      R (Statement.executeCreate c name columns constraints).2
        (Statement.executeCreate d name columns constraints).2 := by
  unfold Statement.executeCreate at hgood ⊢
  rw [hS.has_eq c d h, hS.load_eq c d h]
  by_cases hhas : Catalog.has d name = true
  · simp only [hhas, if_true]
    exact ⟨trivial, h⟩
  · simp only [hhas] at hgood ⊢
    refine commit_related h (fun a hfinal => ⟨rfl, ?_⟩) hgood
    have htargets : Good (Catalog.saveAll d a.2) := not_imp_not.mp (hS.bad.save _ _) hfinal
    exact hS.save _ _ _ (hS.saveAll h htargets) hfinal

/-- Catalogs that are related drop a table alike, and stay so wherever a failure stops it. -/
theorem Simulation.executeDrop (hS : Simulation R Good) (h : R c d) {name : String}
    (hgood : Good (Statement.executeDrop d name).2) :
    (Statement.executeDrop c name).1 = (Statement.executeDrop d name).1 ∧
      R (Statement.executeDrop c name).2 (Statement.executeDrop d name).2 := by
  unfold Statement.executeDrop at hgood ⊢
  rw [hS.require_eq h]
  cases hrequire : Catalog.require d name with
  | error f => exact ⟨rfl, h⟩
  | ok t =>
    simp only [hrequire] at hgood ⊢
    by_cases hunlisted : t.referencedBy.keys.isEmpty = true
    · simp only [hunlisted, if_true] at hgood ⊢
      have hleave := @Simulation.leaveTargets _ _ _ _ R Good c d hS t.name
        (t.foreignKeys.map (·.table)).eraseDups h
      generalize Access.leaveTargets t.name (t.foreignKeys.map (·.table)).eraseDups c = x
        at hleave ⊢
      generalize Access.leaveTargets t.name (t.foreignKeys.map (·.table)).eraseDups d = y
        at hleave hgood ⊢
      obtain ⟨result, left⟩ := x
      obtain ⟨result', left'⟩ := y
      cases result' with
      | error f =>
        obtain ⟨rfl, hleft⟩ := hleave hgood
        exact ⟨rfl, hleft⟩
      | ok u =>
        have hfirst : Good left' := not_imp_not.mp (hS.bad.remove _ _) hgood
        obtain ⟨rfl, hleft⟩ := hleave hfirst
        exact ⟨rfl, hS.remove _ _ name hleft⟩
    · simp only [hunlisted] at hgood ⊢
      exact ⟨rfl, h⟩

/-- Catalogs that are related insert a row alike, and stay so. -/
theorem Simulation.executeInsert (hS : Simulation R Good) (h : R c d) {table : String}
    {columns : Option (List String)} {values : List Value}
    (hgood : Good (Statement.executeInsert d table columns values).2) :
    (Statement.executeInsert c table columns values).1 =
        (Statement.executeInsert d table columns values).1 ∧
      R (Statement.executeInsert c table columns values).2
        (Statement.executeInsert d table columns values).2 := by
  unfold Statement.executeInsert at hgood ⊢
  rw [hS.require_eq h, hS.load_eq c d h]
  exact commit_related h (fun t hfinal => ⟨rfl, hS.save _ _ t h hfinal⟩) hgood

/-- Catalogs that are related delete rows alike, and stay so. -/
theorem Simulation.executeDelete (hS : Simulation R Good) (h : R c d) {table : String}
    {condition : Option Condition}
    (hgood : Good (Statement.executeDelete d table condition).2) :
    (Statement.executeDelete c table condition).1 =
        (Statement.executeDelete d table condition).1 ∧
      R (Statement.executeDelete c table condition).2
        (Statement.executeDelete d table condition).2 := by
  unfold Statement.executeDelete at hgood ⊢
  rw [hS.require_eq h, hS.load_eq c d h]
  refine commit_related h (fun a hfinal => ⟨rfl, ?_⟩) hgood
  dsimp only at hfinal ⊢
  split
  · next hnone =>
    rw [if_pos hnone] at hfinal
    exact hS.saveAll h hfinal
  · next hsome =>
    rw [if_neg hsome] at hfinal
    have hcascaded : Good (Catalog.saveAll d a.2.changed) :=
      not_imp_not.mp (hS.bad.save _ _) hfinal
    exact hS.save _ _ _ (hS.saveAll h hcascaded) hfinal

/-- Over related catalogs a statement comes out alike. -/
theorem Simulation.execute (hS : Simulation R Good) (h : R c d) {s : Statement}
    (hgood : Good (s.execute d).2) :
    (s.execute c).1 = (s.execute d).1 ∧ R (s.execute c).2 (s.execute d).2 := by
  cases s with
  | createTable name columns constraints =>
    rw [Statement.execute_createTable] at hgood
    rw [Statement.execute_createTable, Statement.execute_createTable]
    exact hS.executeCreate h hgood
  | dropTable name =>
    rw [Statement.execute_dropTable] at hgood
    rw [Statement.execute_dropTable, Statement.execute_dropTable]
    exact hS.executeDrop h hgood
  | describe name =>
    rw [Statement.execute_describe, Statement.execute_describe, hS.require_eq h]
    exact ⟨rfl, h⟩
  | showTables =>
    rw [Statement.execute_showTables, Statement.execute_showTables, hS.names_eq c d h]
    exact ⟨rfl, h⟩
  | insert table columns values =>
    rw [Statement.execute_insert] at hgood
    rw [Statement.execute_insert, Statement.execute_insert]
    exact hS.executeInsert h hgood
  | delete table condition =>
    rw [Statement.execute_delete] at hgood
    rw [Statement.execute_delete, Statement.execute_delete]
    exact hS.executeDelete h hgood
  | select projection sources condition =>
    rw [Statement.execute_select, Statement.execute_select, hS.load_eq c d h]
    exact ⟨rfl, h⟩

/-- Catalogs that are related answer a request alike, and stay so. -/
theorem Simulation.perform (hS : Simulation R Good) (h : R c d) {q : CatalogRequest}
    (hgood : Good (q.perform d).2) :
    (q.perform c).1 = (q.perform d).1 ∧ R (q.perform c).2 (q.perform d).2 := by
  cases q with
  | execute s =>
    obtain ⟨hresult, hnext⟩ := hS.execute h hgood
    exact ⟨congrArg CatalogAnswer.executed hresult, hnext⟩
  | save t => exact ⟨rfl, hS.save c d t h hgood⟩
  | remove name => exact ⟨rfl, hS.remove c d name h⟩
  | load name =>
    have hload : Catalog.load c name = Catalog.load d name := congrFun (hS.load_eq c d h) name
    exact ⟨congrArg CatalogAnswer.loaded hload, h⟩
  | has name =>
    have hhas : Catalog.has c name = Catalog.has d name := congrFun (hS.has_eq c d h) name
    exact ⟨congrArg CatalogAnswer.present hhas, h⟩
  | names => exact ⟨congrArg CatalogAnswer.listed (hS.names_eq c d h), h⟩

/-- Related catalogs give the same answers to all requests. -/
theorem Simulation.performAll (hS : Simulation R Good) {requests : List CatalogRequest}
    (h : R c d) (hgood : Good (CatalogRequest.performAll d requests).2) :
    (CatalogRequest.performAll c requests).1 = (CatalogRequest.performAll d requests).1 ∧
      R (CatalogRequest.performAll c requests).2 (CatalogRequest.performAll d requests).2 := by
  induction requests generalizing c d with
  | nil => exact ⟨rfl, h⟩
  | cons q rest ih =>
    have hfirst : Good (q.perform d).2 := not_imp_not.mp hS.bad.performAll hgood
    obtain ⟨hanswer, hnext⟩ := hS.perform h hfirst
    obtain ⟨hanswers, hlast⟩ := ih hnext hgood
    exact ⟨congrArg₂ List.cons hanswer hanswers, hlast⟩

end Simulation

end Catalog

end RelationalStore
