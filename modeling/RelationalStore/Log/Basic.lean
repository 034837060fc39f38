import RelationalStore.Log.Directory
import RelationalStore.Log.Recovery
import RelationalStore.Store.Basic

/-!
# Open logs

An open log knows its file, where the value of each key stands in it, and where the
next entry is expected to start. Several logs may be open on one directory; they do
not learn of each other's entries. Compaction writes the entries that are still
needed to a new file and puts that in the place of the log.
-/

namespace RelationalStore

/-- An open log. -/
structure Log where
  /-- The number of its file. -/
  file : Nat
  index : KeyIndex Slot
  /-- Where the next entry is expected to start. -/
  length : Nat
  deriving DecidableEq

namespace Log

/-- Opens the log of a directory: reads its entries and cuts off what follows them. -/
def recover (checksum : Checksum) (d : Directory) : Directory × Log :=
  let (d, file) := d.withLog
  let state := Recovery.replay (Recovery.entries checksum (d.contents file))
  (d.write file ((d.contents file).take state.2), ⟨file, state.1, state.2⟩)

/-- The value that stands at a slot, if the file reaches so far. -/
def readValue (d : Directory) (log : Log) (k : Key) (slot : Slot) : Except Error Bytes :=
  let start := slot.start + Entry.headerSize + k.length
  match Bytes.split? slot.size.toNat ((d.contents log.file).drop start) with
  | some (v, _) => .ok v
  | none => .error (.io "failed to fill whole buffer")

/-- What a key is bound to. -/
def get (d : Directory) (log : Log) (k : Key) : Except Error (Option Bytes) :=
  match log.index.bindings.get? k with
  | some slot => (log.readValue d k slot).map some
  | none => .ok none

/-- Adds an entry at the end of the file. The place where it is expected to start is
the end that the log knows. -/
def append (checksum : Checksum) (d : Directory) (log : Log) (e : Entry) : Directory × Log :=
  let bytes := e.bytes checksum
  (d.append log.file bytes, { log with length := log.length + bytes.length })

/-- Binds a key. -/
def set (checksum : Checksum) (stamp : UInt32) (d : Directory) (log : Log) (k : Key)
    (v : Bytes) : Directory × Log :=
  let (d, appended) := log.append checksum d ⟨stamp, k, some v⟩
  (d, { appended with index := log.index.insert k ⟨log.length, UInt32.ofNat v.length⟩ })

/-- Unbinds a key; nothing is written for a key that is not bound. -/
def delete (checksum : Checksum) (stamp : UInt32) (d : Directory) (log : Log) (k : Key) :
    Directory × Log :=
  if log.index.bindings.contains k then
    let (d, appended) := log.append checksum d ⟨stamp, k, none⟩
    (d, { appended with index := log.index.erase k })
  else (d, log)

/-- The bindings of an index with their values. -/
def readValues (d : Directory) (log : Log) (slots : List (Key × Slot)) :
    Except Error (List (Key × Bytes)) :=
  slots.mapM fun (k, slot) => (log.readValue d k slot).map fun v => (k, v)

/-- The bindings in an interval of keys. -/
def scan (d : Directory) (log : Log) (interval : Interval) :
    Except Failure (List (Key × Bytes)) := do
  let slots ← log.index.range interval
  Failure.lift (log.readValues d slots)

/-- Writes the entries that are still needed to a new file, which becomes the log. If
a value cannot be read, all stays as it is. -/
def compact (checksum : Checksum) (stamp : UInt32) (d : Directory) (log : Log) :
    Except Error (Directory × Log) := do
  let live ← log.readValues d log.index.bindings.entries
  let entries := live.map fun (k, v) => (⟨stamp, k, some v⟩ : Entry)
  let state := Recovery.replay entries
  let d' := d.replaceLog (entries.flatMap (·.bytes checksum))
  return (d', ⟨d.files.length, state.1, state.2⟩)

/-- The space taken: what is needed is a header, a key and a value for each key. -/
def usage (log : Log) : Usage :=
  let bindings := log.index.bindings
  let logical := bindings.entries.foldr (fun e n => e.1.length + e.2.size.toNat + n) 0
  let live := logical + Entry.headerSize * bindings.size
  { name := "bitcask"
    logicalSize := logical
    totalCount := bindings.size
    totalSize := log.length
    liveSize := live
    garbageSize := log.length - live }

/-- Whether the share of what is not needed exceeds a percentage. -/
def exceeds (log : Log) (threshold : Float) : Bool :=
  0 < log.usage.garbageSize && threshold < log.usage.garbageRate

/-- Opens the log of a directory and compacts it if the share of what is not needed
exceeds a percentage. -/
def recoverWithin (checksum : Checksum) (stamp : UInt32) (threshold : Float) (d : Directory) :
    Except Error (Directory × Log) :=
  let (d, log) := recover checksum d
  if log.exceeds threshold then log.compact checksum stamp d else .ok (d, log)

end Log

/-- A byte store that keeps its bindings in a log. -/
structure LogStore (checksum : Checksum) where
  directory : Directory
  log : Log
  /-- The time stamp of the entries that are written next. -/
  stamp : UInt32
  deriving DecidableEq

namespace LogStore

variable {checksum : Checksum}

/-- The store after a step of its log. -/
def step (store : LogStore checksum) (next : Directory × Log) : LogStore checksum :=
  { store with directory := next.1, log := next.2 }

instance : ByteStore (LogStore checksum) where
  get s k := s.log.get s.directory k
  set s k v := s.step (s.log.set checksum s.stamp s.directory k v)
  delete s k := s.step (s.log.delete checksum s.stamp s.directory k)
  has s k := s.log.index.bindings.contains k
  scan s interval := s.log.scan s.directory interval
  usage s := s.log.usage

end LogStore

end RelationalStore
