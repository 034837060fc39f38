import RelationalStore.Log.Basic

/-!
# Writes that fail

The file may fail to take all bytes of an entry. What it took before the failure stays where
it is, but the failure is reported, and the log neither counts these bytes nor puts the key
into its index.
-/

namespace RelationalStore

/-- A failure of a write. -/
structure Fault where
  /-- The number of bytes that the file took before. -/
  taken : Nat
  cause : String
  deriving DecidableEq, Repr

namespace Log

/-- Adds an entry at the end of the file, unless there is a fault. -/
def tryAppend (checksum : Checksum) (fault : Option Fault) (d : Directory) (log : Log)
    (e : Entry) : Except Error Unit × Directory × Log :=
  match fault with
  | none => (.ok (), log.append checksum d e)
  | some fault =>
    (.error (.io fault.cause), d.append log.file ((e.bytes checksum).take fault.taken), log)

/-- Binds a key, unless there is a fault. -/
def trySet (checksum : Checksum) (stamp : UInt32) (fault : Option Fault) (d : Directory)
    (log : Log) (k : Key) (v : Bytes) : Except Error Unit × Directory × Log :=
  match log.tryAppend checksum fault d ⟨stamp, k, some v⟩ with
  | (.ok (), d, appended) =>
    (.ok (), d, { appended with
      index := log.index.insert k ⟨log.length, UInt32.ofNat v.length⟩ })
  | (.error cause, d, log) => (.error cause, d, log)

/-- Unbinds a key, unless there is a fault; nothing is written for a key that is not bound. -/
def tryDelete (checksum : Checksum) (stamp : UInt32) (fault : Option Fault) (d : Directory)
    (log : Log) (k : Key) : Except Error Unit × Directory × Log :=
  if log.index.bindings.contains k then
    match log.tryAppend checksum fault d ⟨stamp, k, none⟩ with
    | (.ok (), d, appended) => (.ok (), d, { appended with index := log.index.erase k })
    | (.error cause, d, log) => (.error cause, d, log)
  else (.ok (), d, log)

/-- Without a fault a key is bound as ever. -/
theorem trySet_none (checksum : Checksum) (stamp : UInt32) (d : Directory) (log : Log) (k : Key)
    (v : Bytes) :
    log.trySet checksum stamp none d k v = (.ok (), log.set checksum stamp d k v) := rfl

/-- Without a fault a key is unbound as ever. -/
theorem tryDelete_none (checksum : Checksum) (stamp : UInt32) (d : Directory) (log : Log)
    (k : Key) :
    log.tryDelete checksum stamp none d k = (.ok (), log.delete checksum stamp d k) := by
  unfold tryDelete delete
  split <;> rfl

end Log

/-- A change that is asked of a store, and the fault that its write meets, if it meets one. -/
structure Attempt where
  entry : Entry
  fault : Option Fault
  /-- With a fault the file does not take the whole entry. -/
  broken : ∀ f, fault = some f → f.taken < entry.size

namespace LogStore

variable {checksum : Checksum}

/-- What is answered to an attempt, and the store after it. -/
def attempt (s : LogStore checksum) (a : Attempt) : Except Error Unit × LogStore checksum :=
  let (answer, next) := match a.entry.value with
    | some v => s.log.trySet checksum a.entry.stamp a.fault s.directory a.entry.key v
    | none => s.log.tryDelete checksum a.entry.stamp a.fault s.directory a.entry.key
  (answer, { s with stamp := a.entry.stamp }.step next)

end LogStore

end RelationalStore
