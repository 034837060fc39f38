import RelationalStore.Catalog.Access
import RelationalStore.Proofs.Result

/-!
# Reading before storing

Work on a catalog may do anything to it before it fails. The lemmas here tell steps apart by
what they do on the way. A step that reads leaves the catalog alone, however it ends, and a step
that stores cannot fail. Work that goes on to store only when all of its reading is done leaves
no trace where it fails. This is led step by step along the work, and by induction along its
loops.
-/

namespace RelationalStore

namespace Access

variable {κ α β σ : Type} {x : Access κ α} {next : α → Access κ β} {f : κ → Except Failure α}
  {g : α → κ → Except Failure β}

/-- The work succeeds or fails with what the function makes of the catalog, and leaves the
catalog as it is. -/
def Reads (x : Access κ α) (f : κ → Except Failure α) : Prop :=
  ∀ c, x c = (f c, c)

/-- The work succeeds on every catalog. -/
def Unfailing (x : Access κ α) : Prop :=
  ∀ c, ∃ a left, x c = (.ok a, left)

/-- Where the work fails, it leaves the catalog as it has found it. -/
def Traceless (x : Access κ α) : Prop :=
  ∀ c left failure, x c = (.error failure, left) → left = c

/-- After a success the work goes on with the catalog that is left. -/
theorem bind_of_ok {c left : κ} {a : α} (h : x c = (.ok a, left)) :
    (x >>= next) c = next a left := by
  simp only [Bind.bind, h]

/-- A failure ends the work, and the catalog stays as it has been left. -/
theorem bind_of_error {c left : κ} {failure : Failure} (h : x c = (.error failure, left)) :
    (x >>= next) c = (.error failure, left) := by
  simp only [Bind.bind, h]

/-- To give a result reads nothing. -/
theorem reads_pure (a : α) : Reads (pure a : Access κ α) fun _ => .ok a := fun _ => rfl

/-- To fail reads nothing. -/
theorem reads_fail (cause : Error) :
    Reads (fail cause : Access κ α) fun _ => .error (.error cause) := fun _ => rfl

/-- What is worked out without the catalog does not depend on it. -/
theorem reads_result (result : Except Failure α) :
    Reads (liftM result : Access κ α) fun _ => result := fun _ => rfl

/-- What may fail for a proper cause only does not depend on the catalog either. -/
theorem reads_lift (result : Except Error α) :
    Reads (liftM result : Access κ α) fun _ => Failure.lift result := fun _ => rfl

/-- What a step that reads comes to on one catalog. -/
theorem Reads.apply_eq (hx : Reads x f) {c : κ} {result : Except Failure α} (h : f c = result) :
    x c = (result, c) :=
  h ▸ hx c

/-- If two steps read, so does the one after the other. -/
theorem Reads.bind (hx : Reads x f) (hnext : ∀ a, Reads (next a) (g a)) :
    Reads (x >>= next) fun c => f c >>= fun a => g a c := by
  intro c
  dsimp only
  cases hread : f c with
  | error failure => exact bind_of_error (hx.apply_eq hread)
  | ok a => exact (bind_of_ok (hx.apply_eq hread)).trans (hnext a c)

/-- What is made of the result of a step that reads needs no reading. -/
theorem Reads.map (hx : Reads x f) (make : α → β) :
    Reads (x >>= fun a => pure (make a)) fun c => (f c).map make := by
  intro c
  dsimp only
  cases hread : f c with
  | error failure => exact bind_of_error (hx.apply_eq hread)
  | ok a => exact bind_of_ok (hx.apply_eq hread)

/-- A walk along a list reads if each of its steps does. -/
theorem Reads.foldlM {step : σ → β → Access κ σ} {step' : σ → β → κ → Except Failure σ}
    (hstep : ∀ s b, Reads (step s b) (step' s b)) (items : List β) (s : σ) :
    Reads (items.foldlM step s) fun c => items.foldlM (fun s b => step' s b c) s := by
  induction items generalizing s with
  | nil => exact reads_pure s
  | cons b rest ih =>
    simp only [List.foldlM_cons]
    exact (hstep s b).bind fun s' => ih s'

/-- A result that leaves the catalog as it is unless it is one to go on with. -/
def commit (catalog : κ) (result : Except Failure α) (finish : α → β × κ) :
    Except Failure β × κ :=
  match result with
  | .error failure => (.error failure, catalog)
  | .ok a =>
    let (b, catalog') := finish a
    (.ok b, catalog')

/-- Reading and then going on in a way that cannot fail is work in two parts. -/
theorem Reads.eq_commit (hx : Reads x f) {c : κ} {finish : α → β × κ}
    (hnext : ∀ a, next a c = (.ok (finish a).1, (finish a).2)) :
    (x >>= next) c = commit c (f c) finish := by
  cases hread : f c with
  | error failure => exact bind_of_error (hx.apply_eq hread)
  | ok a => exact (bind_of_ok (hx.apply_eq hread)).trans (hnext a)

/-- What is read in front of work in two parts belongs to its first part. -/
theorem Reads.bind_eq_commit {γ : Type} (hx : Reads x f) {c : κ} {result : α → Except Failure γ}
    {finish : γ → β × κ} (hnext : ∀ a, next a c = commit c (result a) finish) :
    (x >>= next) c = commit c (f c >>= result) finish := by
  cases hread : f c with
  | error failure => exact bind_of_error (hx.apply_eq hread)
  | ok a => exact (bind_of_ok (hx.apply_eq hread)).trans (hnext a)

/-- What cannot fail behind work in two parts belongs to its second part. -/
theorem bind_eq_commit {γ : Type} {c : κ} {result : Except Failure γ} {first : γ → α × κ}
    {finish : γ → β × κ} (hx : x c = commit c result first)
    (hnext : ∀ r, next (first r).1 (first r).2 = (.ok (finish r).1, (finish r).2)) :
    (x >>= next) c = commit c result finish := by
  cases result with
  | error failure => exact bind_of_error hx
  | ok r => exact (bind_of_ok hx).trans (hnext r)

/-- Two steps that cannot fail make work that cannot. -/
theorem Unfailing.bind (hx : Unfailing x) (hnext : ∀ a, Unfailing (next a)) :
    Unfailing (x >>= next) := by
  intro c
  obtain ⟨a, left, hfirst⟩ := hx c
  obtain ⟨b, last, hsecond⟩ := hnext a left
  exact ⟨b, last, (bind_of_ok hfirst).trans hsecond⟩

/-- To give a result cannot fail. -/
theorem unfailing_pure (a : α) : Unfailing (pure a : Access κ α) := fun c => ⟨a, c, rfl⟩

/-- Work that reads leaves no trace. -/
theorem Reads.traceless (hx : Reads x f) : Traceless x := by
  intro c left failure hfails
  exact (Prod.mk.inj (hfails.symm.trans (hx c))).2

/-- Work that cannot fail leaves no trace where it does. -/
theorem Unfailing.traceless (hx : Unfailing x) : Traceless x := by
  intro c left failure hfails
  obtain ⟨a, last, hsucceeds⟩ := hx c
  cases hsucceeds.symm.trans hfails

/-- Reading can be put before work that leaves no trace. -/
theorem Reads.bind_traceless (hx : Reads x f) (hnext : ∀ a, Traceless (next a)) :
    Traceless (x >>= next) := by
  intro c left failure hfails
  cases hread : f c with
  | error e =>
    have hfirst : x c = (.error e, c) := hx.apply_eq hread
    exact (Prod.mk.inj ((bind_of_error hfirst).symm.trans hfails)).2.symm
  | ok a =>
    have hfirst : x c = (.ok a, c) := hx.apply_eq hread
    exact hnext a c left failure ((bind_of_ok hfirst).symm.trans hfails)

/-- What cannot fail can be put behind work that leaves no trace. -/
theorem Traceless.bind (hx : Traceless x) (hnext : ∀ a, Unfailing (next a)) :
    Traceless (x >>= next) := by
  intro c left failure hfails
  rcases hfirst : x c with ⟨e | a, middle⟩
  · obtain ⟨_, rfl⟩ := Prod.mk.inj ((bind_of_error hfirst).symm.trans hfails)
    exact hx c middle e hfirst
  · obtain ⟨b, last, hsecond⟩ := hnext a middle
    cases (hsecond.symm.trans (bind_of_ok hfirst).symm).trans hfails

variable [Catalog κ]

/-- To load a table reads. -/
theorem reads_load (name : String) :
    Reads (load name : Access κ _) fun c => Catalog.load c name := fun _ => rfl

/-- To ask for a name reads. -/
theorem reads_has (name : String) :
    Reads (has name : Access κ _) fun c => .ok (Catalog.has c name) := fun _ => rfl

/-- To list the names reads. -/
theorem reads_names : Reads (names : Access κ _) Catalog.names := fun _ => rfl

/-- To store a table cannot fail. -/
theorem unfailing_save (t : Table) : Unfailing (save t : Access κ _) := fun _ => ⟨_, _, rfl⟩

/-- To store several tables cannot fail. -/
theorem unfailing_saveAll (tables : List Table) : Unfailing (saveAll tables : Access κ _) := by
  induction tables with
  | nil => exact unfailing_pure ()
  | cons t rest ih => exact (unfailing_save t).bind fun _ => ih

end Access

namespace Catalog

variable {κ : Type} [Catalog κ]

/-- Stores several tables, one after another. -/
def saveAll (catalog : κ) (tables : List Table) : κ :=
  tables.foldl save catalog

/-- The table that a statement is about. -/
def require (catalog : κ) (name : String) : Except Failure Table := do
  match ← load catalog name with
  | some t => return t
  | none => .error (.error (.noSuchTable name))

end Catalog

namespace Access

variable {κ : Type} [Catalog κ]

/-- To store several tables leaves the catalog with all of them. -/
theorem saveAll_eq (tables : List Table) (c : κ) :
    saveAll tables c = (.ok (), Catalog.saveAll c tables) := by
  induction tables generalizing c with
  | nil => rfl
  | cons t rest ih => exact ih (Catalog.save c t)

/-- To ask for the table of a statement reads. -/
theorem reads_require (name : String) :
    Reads (require name : Access κ _) fun c => Catalog.require c name := by
  refine (reads_load name).bind fun t? => ?_
  cases t? with
  | none => exact reads_fail _
  | some t => exact reads_pure t

end Access

end RelationalStore
