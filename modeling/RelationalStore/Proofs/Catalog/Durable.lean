import RelationalStore.Digest.Sha3
import RelationalStore.Proofs.Catalog.Memory
import RelationalStore.Proofs.Catalog.Simulation
import RelationalStore.Proofs.Log.Runs

/-!
# Catalogs that are kept in a log

A catalog that is kept in a log gives the same answers as one in memory, no matter when the
log is closed and opened again. The two are related as long as the log keeps entries that
bind what is bound in memory, and so nothing that a request asks of them tells them apart.
The only condition is that the forms of all tables that are saved leave room in the fields
of the entries.
-/

namespace RelationalStore

/-- A step of a session with a catalog that is kept in a log. -/
inductive SessionStep where
  /-- A request is made, and what it writes bears the given time. -/
  | request (stamp : UInt32) (q : CatalogRequest)
  /-- The log is closed and opened again. With a percentage, it is compacted if the share of
  what is not needed exceeds it. -/
  | reopen (stamp : UInt32) (threshold : Option Float)

namespace SessionStep

/-- The request that is made. -/
def request? : SessionStep → Option CatalogRequest
  | request _ q => some q
  | reopen _ _ => none

/-- The requests that are made, in their order. -/
def requests (steps : List SessionStep) : List CatalogRequest :=
  steps.filterMap request?

end SessionStep

/-- A catalog together with the tables that have been saved in it. -/
structure Recorded (κ : Type) where
  catalog : κ
  saved : List Table

namespace Recorded

instance {κ : Type} [Catalog κ] : Catalog (Recorded κ) where
  load r := Catalog.load r.catalog
  save r t := ⟨Catalog.save r.catalog t, r.saved ++ [t]⟩
  remove r name := { r with catalog := Catalog.remove r.catalog name }
  has r := Catalog.has r.catalog
  names r := Catalog.names r.catalog

variable {κ : Type}

/-- The form of every table that has been saved leaves room in the field of its length. -/
def Storable (r : Recorded κ) : Prop :=
  ∀ t ∈ r.saved, (Binary.write t).length < Entry.valueLimit

instance : DecidablePred (@Storable κ) := fun r =>
  inferInstanceAs (Decidable (∀ t ∈ r.saved, _))

variable [Catalog κ] {r : Recorded κ} {t : Table} {name : String}

/-- Saving a table leaves the record storable exactly if it was so and the form of the table
leaves room in the field of its length. -/
theorem storable_save_iff : (Catalog.save r t).Storable ↔
    r.Storable ∧ (Binary.write t).length < Entry.valueLimit := by
  have hsaved : (Catalog.save r t).saved = r.saved ++ [t] := rfl
  rw [Storable, hsaved, List.forall_mem_append, List.forall_mem_singleton, Storable]

/-- What is not storable does not become so. -/
theorem keeps_not_storable : Catalog.Keeps fun r : Recorded κ => ¬ r.Storable :=
  ⟨fun _ _ h hsave => h (storable_save_iff.mp hsave).1, fun _ _ h => h⟩

/-- Recording what is saved changes no answer. -/
theorem simulation_catalog :
    Catalog.Simulation (fun (c : κ) (r : Recorded κ) => r.catalog = c) fun _ => True where
  load_eq c d h := by rw [← h]; rfl
  has_eq c d h := by rw [← h]; rfl
  names_eq c d h := by rw [← h]; rfl
  save c d t h _ := by rw [← h]; rfl
  remove c d name h := by rw [← h]; rfl
  bad := ⟨fun _ _ h => h, fun _ _ h => h⟩

end Recorded

namespace TableStore

variable {checksum : Checksum} {c : TableStore (LogStore checksum)}
  {r : Recorded (TableStore Memory)}

/-- The catalog at a given time. -/
def atTime (c : TableStore (LogStore checksum)) (stamp : UInt32) :
    TableStore (LogStore checksum) :=
  ⟨{ c.store with stamp := stamp }⟩

/-- The answers to the requests of a session and the catalog after it. -/
def session : TableStore (LogStore checksum) → List SessionStep →
    Except Error (List CatalogAnswer × TableStore (LogStore checksum))
  | c, [] => .ok ([], c)
  | c, .request stamp q :: rest => do
    let (answer, next) := q.perform (c.atTime stamp)
    let (answers, last) ← session next rest
    return (answer :: answers, last)
  | c, .reopen stamp threshold :: rest => do
    let store ← c.store.reopen stamp threshold
    session ⟨store⟩ rest

/-- The log keeps entries that bind what is bound in memory, which holds tables. -/
structure Agrees (c : TableStore (LogStore checksum)) (r : Recorded (TableStore Memory)) :
    Prop where
  keeps : ∃ list, c.store.Keeps list ∧
    (Memory.afterChanges list).index.bindings = r.catalog.store.index.bindings
  holds : ∃ tables, Holds r.catalog tables
  fits : r.catalog.FitsMemory

/-- The name of a table is a part of its form. -/
theorem length_keyOf_le (t : Table) :
    (keyOf t.name).length ≤ keyStart.length + (Binary.write t).length := by
  have hname : (Bytes.ofText t.name).length ≤ (Binary.write t.name).length := by
    have hform : Binary.write t.name =
        Binary.writeNat (Bytes.ofText t.name).length ++ Bytes.ofText t.name := rfl
    rw [hform, List.length_append]
    omega
  rw [keyOf, Binary.write_table, List.length_append, List.length_append]
  omega

/-- A store fits in memory after a table whose form does has been saved. -/
theorem FitsMemory.save {c : TableStore Memory} {t : Table} (h : c.FitsMemory)
    (ht : (Binary.write t).length < Binary.memorySize) : (Catalog.save c t).FitsMemory := by
  intro e he
  rcases SortedMap.mem_of_mem_insertEntry he with rfl | he
  · exact ht
  · exact h e he

/-- A store that fits in memory does so when a table has been removed. -/
theorem FitsMemory.remove {c : TableStore Memory} (h : c.FitsMemory) (name : String) :
    (Catalog.remove c name).FitsMemory :=
  fun e he => h e (List.mem_filter.mp he).1

/-- Both catalogs load the same tables. -/
theorem Agrees.load_eq (h : c.Agrees r) : Catalog.load c = Catalog.load r := by
  obtain ⟨list, hkeeps, hbindings⟩ := h.keeps
  funext name
  have hget : ByteStore.get c.store (keyOf name) = ByteStore.get r.catalog.store (keyOf name) :=
    (hkeeps.get_eq (keyOf name)).trans
      (congrArg (fun m : SortedMap Key Bytes => Except.ok (m.get? (keyOf name))) hbindings)
  have hlog : Catalog.load c name = TableStore.load c name := rfl
  have hmemory : Catalog.load r name = TableStore.load r.catalog name := rfl
  rw [hlog, hmemory, TableStore.load, TableStore.load, hget]

/-- Both catalogs tell alike whether a table is there. -/
theorem Agrees.has_eq (h : c.Agrees r) : Catalog.has c = Catalog.has r := by
  obtain ⟨list, hkeeps, hbindings⟩ := h.keeps
  funext name
  exact (hkeeps.has_eq (keyOf name)).trans
    (congrArg (fun m : SortedMap Key Bytes => m.contains (keyOf name)) hbindings)

/-- Both catalogs list the same names. -/
theorem Agrees.names_eq (h : c.Agrees r) : Catalog.names c = Catalog.names r := by
  obtain ⟨list, hkeeps, hbindings⟩ := h.keeps
  have hscan : ByteStore.scanStart c.store keyStart =
      ByteStore.scanStart r.catalog.store keyStart :=
    (hkeeps.scanStart_eq keyStart).trans (LogStore.range_congr hbindings fun himproper => by
      rw [Interval.improper_startingWith] at himproper
      cases himproper)
  have hlog : Catalog.names c = TableStore.names c := rfl
  have hmemory : Catalog.names r = TableStore.names r.catalog := rfl
  rw [hlog, hmemory, TableStore.names, TableStore.names, hscan]

/-- The catalogs agree after the same change, as long as memory then holds tables. -/
theorem Agrees.change (h : c.Agrees r) (e : Entry) (r' : Recorded (TableStore Memory))
    (hstamp : e.stamp = c.store.stamp) (hfits : ∀ v, e.value = some v → e.Fits)
    (hr' : r'.catalog.store = ByteStore.change r.catalog.store e)
    (hholds : ∃ tables, Holds r'.catalog tables) (hmemory : r'.catalog.FitsMemory) :
    Agrees ⟨ByteStore.change c.store e⟩ r' := by
  obtain ⟨list, hkeeps, hbindings⟩ := h.keeps
  obtain ⟨list', hkeeps', hlist'⟩ := hkeeps.exists_change hfits
  have hsame : c.store.change e = ByteStore.change c.store e := by
    rw [LogStore.change, hstamp]
  refine ⟨⟨list', hsame ▸ hkeeps', ?_⟩, hholds, hmemory⟩
  rw [hlist', hr', Memory.bindings_change, Memory.bindings_change, hbindings]

/-- As long as their forms leave room, the catalogs agree on all tables that are saved and
removed. -/
theorem simulation_agrees : Catalog.Simulation
    (Agrees : TableStore (LogStore checksum) → Recorded (TableStore Memory) → Prop)
    Recorded.Storable where
  load_eq _ _ h := h.load_eq
  has_eq _ _ h := h.has_eq
  names_eq _ _ h := h.names_eq
  save c r t h hgood := by
    have hlength := (Recorded.storable_save_iff.mp hgood).2
    have hmemory : (Binary.write t).length < Binary.memorySize :=
      Nat.lt_trans hlength (by decide)
    have hkey : (keyOf t.name).length < UInt32.size :=
      Nat.lt_of_le_of_lt (length_keyOf_le t)
        (Nat.lt_of_lt_of_le (Nat.add_lt_add_left hlength _) (by decide))
    have hroom : ∀ v, some (Binary.write t) = some v →
        (⟨c.store.stamp, keyOf t.name, some (Binary.write t)⟩ : Entry).Fits :=
      fun _ _ => ⟨hkey, fun v hv => Option.some.inj hv ▸ hlength⟩
    obtain ⟨tables, hholds⟩ := h.holds
    exact h.change ⟨c.store.stamp, keyOf t.name, some (Binary.write t)⟩ (Catalog.save r t) rfl
      hroom rfl ⟨_, hholds.save t⟩ (h.fits.save hmemory)
  remove c r name h := by
    obtain ⟨tables, hholds⟩ := h.holds
    exact h.change ⟨c.store.stamp, keyOf name, none⟩ (Catalog.remove r name) rfl (by simp) rfl
      ⟨_, hholds.remove name⟩ (h.fits.remove name)
  bad := Recorded.keeps_not_storable

/-- Setting the time of the log does not disturb the agreement. -/
theorem Agrees.atTime (h : c.Agrees r) (stamp : UInt32) : (c.atTime stamp).Agrees r := by
  obtain ⟨list, hkeeps, hbindings⟩ := h.keeps
  exact ⟨⟨list, hkeeps.withStamp stamp, hbindings⟩, h.holds, h.fits⟩

/-- Opening the log again succeeds and does not disturb the agreement. -/
theorem Agrees.reopen (h : c.Agrees r) (stamp : UInt32) (threshold : Option Float) :
    ∃ store, c.store.reopen stamp threshold = .ok store ∧
      (⟨store⟩ : TableStore (LogStore checksum)).Agrees r := by
  obtain ⟨list, hkeeps, hbindings⟩ := h.keeps
  obtain ⟨store, hstore, hnext⟩ := hkeeps.reopen stamp threshold
  refine ⟨store, hstore, ⟨_, hnext, ?_⟩, h.holds, h.fits⟩
  split
  · exact (LogStore.afterChanges_needed stamp list).1.trans hbindings
  · exact hbindings

/-- A session over a log gives the answers of memory, and the catalogs agree after it. -/
theorem Agrees.session {steps : List SessionStep} (h : c.Agrees r)
    (hgood : (CatalogRequest.performAll r (SessionStep.requests steps)).2.Storable) :
    ∃ last, session c steps =
        .ok ((CatalogRequest.performAll r (SessionStep.requests steps)).1, last) ∧
      last.Agrees (CatalogRequest.performAll r (SessionStep.requests steps)).2 := by
  induction steps generalizing c r with
  | nil => exact ⟨c, rfl, h⟩
  | cons step rest ih =>
    cases step with
    | request stamp q =>
      have hfirst : (q.perform r).2.Storable :=
        not_imp_not.mp Recorded.keeps_not_storable.performAll hgood
      obtain ⟨hanswer, hnext⟩ := simulation_agrees.perform (h.atTime stamp) hfirst
      obtain ⟨last, hlast, hagrees⟩ := ih hnext hgood
      refine ⟨last, ?_, hagrees⟩
      simp only [TableStore.session, bind, Except.bind, hlast, hanswer]
      rfl
    | reopen stamp threshold =>
      obtain ⟨store, hstore, hnext⟩ := h.reopen stamp threshold
      obtain ⟨last, hlast, hagrees⟩ := ih hnext hgood
      refine ⟨last, ?_, hagrees⟩
      rw [TableStore.session, hstore]
      exact hlast

/-- A log that is opened in an empty directory agrees with an empty memory. -/
theorem agrees_empty (checksum : Checksum) :
    Agrees ⟨LogStore.ofDirectory checksum 0 Directory.empty⟩ ⟨⟨Memory.empty⟩, []⟩ :=
  ⟨⟨[], LogStore.keeps_ofDirectory_empty 0, rfl⟩, ⟨_, holds_empty⟩,
    fun _ he => absurd he List.not_mem_nil⟩

/-- Requests to a catalog that is kept in a log get the answers of a catalog in memory, even
if the log is closed and opened again in between. Both catalogs then hold the same tables,
and list exactly the names of these in ascending order of their bytes. This needs that the
forms of all tables that are saved leave room in the fields of the entries. -/
theorem session_answers (checksum : Checksum) (steps : List SessionStep)
    (hstorable : (CatalogRequest.performAll
      (⟨⟨Memory.empty⟩, []⟩ : Recorded (TableStore Memory))
      (SessionStep.requests steps)).2.Storable) :
    let memory := CatalogRequest.performAll (⟨Memory.empty⟩ : TableStore Memory)
      (SessionStep.requests steps)
    ∃ c, session ⟨LogStore.ofDirectory checksum 0 Directory.empty⟩ steps = .ok (memory.1, c) ∧
      ∃ (tables : TableMap) (names : List String),
        (∀ name, Catalog.load c name = .ok (tables.find name)) ∧
        (∀ name, Catalog.load memory.2 name = .ok (tables.find name)) ∧
        Catalog.names c = .ok names ∧ Catalog.names memory.2 = .ok names ∧
        names.Pairwise (fun a b => compare (Bytes.ofText a) (Bytes.ofText b) = .lt) ∧
        ∀ name, name ∈ names ↔ (tables.find name).isSome = true := by
  intro memory
  obtain ⟨c, hsession, hagrees⟩ := (agrees_empty checksum).session hstorable
  have hempty : (⟨⟨Memory.empty⟩, []⟩ : Recorded (TableStore Memory)).catalog = ⟨Memory.empty⟩ :=
    rfl
  obtain ⟨hanswers, hcatalog⟩ := Recorded.simulation_catalog.performAll hempty trivial
  obtain ⟨tables, hholds⟩ := hagrees.holds
  have hfits := hagrees.fits
  have hload := hagrees.load_eq
  have hlisted := hagrees.names_eq
  rw [hcatalog] at hholds hfits
  have hread : Catalog.load memory.2 = tables.read := hholds.load_eq_read hfits
  obtain ⟨names, hnames, hascending, hmem⟩ := hholds.exists_names
  have hrecorded : Catalog.load c = Catalog.load memory.2 :=
    hload.trans (congrArg Catalog.load hcatalog)
  have hsame : Catalog.names c = Catalog.names memory.2 :=
    hlisted.trans (congrArg Catalog.names hcatalog)
  refine ⟨c, hanswers ▸ hsession, tables, names, ?_, ?_, hsame.trans hnames, hnames,
    hascending, hmem⟩
  · exact fun name => congrFun (hrecorded.trans hread) name
  · exact fun name => congrFun hread name

/-- A session that makes a table, puts a row in it and opens the log again in between. -/
def sampleSession : List SessionStep :=
  [.request 1 (.execute (.createTable "team"
      [(ColumnDefinition.plain "id" .integer).asPrimaryKey] [])),
    .reopen 2 none,
    .request 3 (.execute (.insert "team" none [.integer 1])),
    .reopen 4 (some 50),
    .request 5 (.has "team")]

/-- This session answers its three requests, and the names are those of memory. -/
theorem session_answers_sample : ∃ answers c,
    session ⟨LogStore.ofDirectory Sha3.checksum 0 Directory.empty⟩ sampleSession =
        .ok (answers, c) ∧ answers.length = 3 ∧ Catalog.names c = .ok ["team"] := by
  have hstorable : (CatalogRequest.performAll
      (⟨⟨Memory.empty⟩, []⟩ : Recorded (TableStore Memory))
      (SessionStep.requests sampleSession)).2.Storable := by decide +kernel
  obtain ⟨c, hsession, tables, names, _, _, hnames, hmemory, _⟩ :=
    session_answers Sha3.checksum sampleSession hstorable
  refine ⟨_, c, hsession, rfl, hnames.trans (hmemory.symm.trans ?_)⟩
  decide +kernel

end TableStore

end RelationalStore
