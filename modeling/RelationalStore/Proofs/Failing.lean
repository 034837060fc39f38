import RelationalStore.Proofs.Result

/-!
# Operations that fail

An operation that is put together from others fails with nothing but what its parts fail
with. The lemmas here lead a bound on the failures from the parts to the whole. A bound
that admits no failure at all says that the operation succeeds, so that one notion serves
both for what is refused and for what cannot go wrong.
-/

namespace RelationalStore

/-- What a cause of failure has to do with. -/
inductive Error.Topic where
  /-- What is kept, or the form in which it is kept. -/
  | storage
  | settings
  /-- The table that a statement is about. -/
  | table
  | definition
  | dropping
  | insertion
  | query
  | condition
  deriving DecidableEq, Repr

/-- The topic of a cause. -/
def Error.topic : Error → Error.Topic
  | invalidData _ | io _ | encode _ | decode _ => .storage
  | config _ => .settings
  | noSuchTable _ => .table
  | tableExists _ | duplicateColumn _ | duplicatePrimaryKey | charLength _ | undefinedColumn _
  | referenceTable _ | referenceColumn _ | referenceNonPrimary _ | referenceType _
  | referencePartialKey _ => .definition
  | dropReferenced _ => .dropping
  | insertType _ | insertColumn _ | insertNull _ | insertDuplicateKey | insertReference _ =>
    .insertion
  | selectTable _ | duplicateAlias _ | selectColumn _ => .query
  | incomparable | whereTable _ | whereColumn _ | whereAmbiguous _ => .condition

/-- The request is refused for a cause of the topic. -/
def Failure.About (topic : Error.Topic) (f : Failure) : Prop :=
  ∃ e, f = .error e ∧ e.topic = topic

/-- Whatever the operation fails with has the property. -/
def FailsOnly {ε α : Type} (P : ε → Prop) (x : Except ε α) : Prop :=
  ∀ e, x = .error e → P e

namespace FailsOnly

variable {ε α β : Type} {P Q : ε → Prop} {x : Except ε α}

/-- An operation that succeeds fails with nothing. -/
theorem ok (a : α) : FailsOnly P (.ok a : Except ε α) := by
  intro e he
  cases he

/-- An operation that fails with an allowed error fails with nothing else. -/
theorem error {e : ε} (h : P e) : FailsOnly P (.error e : Except ε α) := by
  intro e' he'
  cases he'
  exact h

/-- An operation that is known to succeed fails with nothing. -/
theorem of_exists_ok (h : ∃ a, x = .ok a) : FailsOnly P x := by
  obtain ⟨a, rfl⟩ := h
  exact ok a

/-- An operation that can fail with nothing succeeds. -/
theorem exists_ok (h : FailsOnly (fun _ => False) x) : ∃ a, x = .ok a := by
  cases x with
  | error e => exact (h e rfl).elim
  | ok a => exact ⟨a, rfl⟩

/-- A bound on the failures may be weakened. -/
theorem mono (h : FailsOnly P x) (hPQ : ∀ e, P e → Q e) : FailsOnly Q x :=
  fun e he => hPQ e (h e he)

/-- The second operation is only asked for after a success of the first one. -/
theorem bind {f : α → Except ε β} (h : FailsOnly P x)
    (hf : ∀ a, x = .ok a → FailsOnly P (f a)) : FailsOnly P (x >>= f) := by
  cases x with
  | error e => exact error (h e rfl)
  | ok a => exact hf a rfl

/-- An operation that is known to succeed fails in no way of its own. -/
theorem bind_ok {f : α → Except ε β} {a : α} (hx : x = .ok a) (hf : FailsOnly P (f a)) :
    FailsOnly P (x >>= f) := by
  subst hx
  exact hf

/-- What is done with a result afterwards adds no failure. -/
theorem map {f : α → β} (h : FailsOnly P x) : FailsOnly P (x.map f) := by
  cases x with
  | error e => exact error (h e rfl)
  | ok a => exact ok (f a)

/-- An operation on every item fails with nothing but what it fails with on one of them. -/
theorem mapM {f : α → Except ε β} {items : List α} (h : ∀ a ∈ items, FailsOnly P (f a)) :
    FailsOnly P (items.mapM f) := by
  induction items with
  | nil => exact ok []
  | cons a rest ih =>
    rw [List.forall_mem_cons] at h
    rw [List.mapM_cons]
    exact h.1.bind fun b _ => (ih h.2).bind fun others _ => ok (b :: others)

/-- A walk along a list fails only with what a step from a state with the invariant fails
with. -/
theorem foldlM {I : β → Prop} {f : β → α → Except ε β} {items : List α} {b : β} (hb : I b)
    (hfails : ∀ a ∈ items, ∀ s, I s → FailsOnly P (f s a))
    (hkeeps : ∀ a ∈ items, ∀ s s', I s → f s a = .ok s' → I s') :
    FailsOnly P (items.foldlM f b) := by
  induction items generalizing b with
  | nil => exact ok b
  | cons a rest ih =>
    rw [List.forall_mem_cons] at hfails hkeeps
    rw [List.foldlM_cons]
    exact (hfails.1 b hb).bind fun s hs => ih (hkeeps.1 b s hb hs) hfails.2 hkeeps.2

/-- A bound on the errors is one on the failures that report them. -/
theorem lift {P : Failure → Prop} {x : Except Error α} (h : FailsOnly (fun e => P (.error e)) x) :
    FailsOnly P (Failure.lift x) := by
  cases x with
  | error e => exact error (h e rfl)
  | ok a => exact ok a

/-- What fails only for a topic is refused only for this topic. -/
theorem about {topic : Error.Topic} {x : Except Error α}
    (h : FailsOnly (fun e => e.topic = topic) x) :
    FailsOnly (Failure.About topic) (Failure.lift x) :=
  FailsOnly.lift (h.mono fun e he => ⟨e, rfl, he⟩)

end FailsOnly

end RelationalStore
