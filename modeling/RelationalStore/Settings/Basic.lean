import RelationalStore.Decimal.Text
import RelationalStore.Error
import RelationalStore.Text.Blank

/-!
# Settings

Where the tables are kept and how. Settings that name an impossible threshold or no
level of logging are refused.
-/

namespace RelationalStore

/-- The kinds of byte store. -/
inductive StoreKind where
  | memory
  | bitcask
  deriving DecidableEq, Repr

/-- When a log file is forced to the disk. -/
inductive SyncPolicy where
  | always
  | every
  | never
  deriving DecidableEq, Repr

/-- The settings of the store. -/
structure Settings where
  /-- The directory of the log. -/
  storagePath : String
  storeKind : StoreKind
  syncPolicy : SyncPolicy
  /-- The milliseconds between two times of forcing, under the policy `every`. -/
  syncInterval : UInt64
  /-- The percentage of space that is not needed any more above which the log is
  compacted when it is opened. -/
  compactionThreshold : Float
  logLevel : String

/-- Why settings cannot be had. -/
inductive SettingsFault where
  /-- The file cannot be read. -/
  | unreadable
  /-- The file does not describe settings. -/
  | malformed
  /-- The threshold is no percentage. -/
  | threshold (x : Float)
  /-- The level of logging is left blank. -/
  | blankLevel

namespace SettingsFault

/-- The cause that is reported. -/
def toError : SettingsFault → Error
  | unreadable => .io "cannot read the configuration file"
  | malformed => .config "malformed configuration file"
  | threshold x =>
    .config s!"compaction_threshold must be within 0..=100, got {(Double.ofFloat x).text}"
  | blankLevel => .config "log_level must not be empty"

end SettingsFault

namespace Settings

/-- The settings that hold unless others are given. -/
def initial : Settings where
  storagePath := "./db"
  storeKind := .bitcask
  syncPolicy := .never
  syncInterval := 1000
  compactionThreshold := 50
  logLevel := "info"

/-- Refuses settings that cannot be used. -/
def validate (s : Settings) : Except SettingsFault Settings :=
  if !(0 ≤ s.compactionThreshold && s.compactionThreshold ≤ 100) then
    .error (.threshold s.compactionThreshold)
  else if Text.allBlank s.logLevel then .error .blankLevel
  else .ok s

end Settings

end RelationalStore
