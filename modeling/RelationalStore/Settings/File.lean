import RelationalStore.Settings.Basic
import RelationalStore.Toml.Document

/-!
# Settings in a file

A file of settings is a document of TOML with a member `config`. That is a table of
settings by name, or a list of settings in a fixed order. What is left out has its
initial value. Members without a meaning are passed over if all numbers in them have
values; what is left of a list behind the last setting is not looked at.
-/

namespace RelationalStore

namespace Toml

/-- The text that a value is. -/
def text? : Toml → Option String
  | text s => some s
  | _ => none

mutual

/-- Whether all numbers in a value have values themselves. -/
def isSound : Toml → Bool
  | valueless => false
  | list items | tables items => areSound items
  | table _ members => haveSound members
  | _ => true

/-- Whether all numbers in some values have values. -/
def areSound : List Toml → Bool
  | [] => true
  | value :: rest => value.isSound && areSound rest

/-- Whether all numbers in the values of some members have values. -/
def haveSound : List (String × Toml) → Bool
  | [] => true
  | (_, value) :: rest => value.isSound && haveSound rest

end

/-- Whether a value holds nothing: it is a list or a table without members. -/
def isVoid : Toml → Bool
  | list items => items.isEmpty
  | table _ members => members.isEmpty
  | _ => false

/-- The alternative that a value names: by a text, or by a table whose only member
has that name and holds nothing. -/
def alternative? {α : Type} (alternatives : List (String × α)) : Toml → Option α
  | text s => alternatives.lookup s
  | table _ [(name, value)] => if value.isVoid then alternatives.lookup name else none
  | _ => none

/-- The number without sign that a value is. -/
def unsigned? : Toml → Option UInt64
  | integer n => if 0 ≤ n ∧ n < UInt64.size then some (UInt64.ofNat n.toNat) else none
  | _ => none

/-- The floating point number that a value is; integers of 64 bits are rounded to one. -/
def double? : Toml → Option Float
  | float x => some x
  | integer n => if -0x8000000000000000 ≤ n ∧ n < UInt64.size then some (Double.ofInt n) else none
  | _ => none

end Toml

namespace Settings

/-- The kinds of byte store by name. -/
def storeKinds : List (String × StoreKind) :=
  [("Memory", .memory), ("Bitcask", .bitcask)]

/-- The policies of forcing by name. -/
def syncPolicies : List (String × SyncPolicy) :=
  [("Always", .always), ("Every", .every), ("Never", .never)]

/-- The names of the settings in the order of a list of settings. -/
def names : List String :=
  ["storage_path", "storage_engine", "sync_strategy", "fsync_interval_ms",
    "compaction_threshold", "log_level"]

/-- The settings with one of them changed; a sound value of a name that is none of
theirs is passed over. -/
def change (s : Settings) (setting : String × Toml) : Option Settings := do
  let (name, value) := setting
  match name with
  | "storage_path" => return { s with storagePath := ← value.text? }
  | "storage_engine" => return { s with storeKind := ← value.alternative? storeKinds }
  | "sync_strategy" => return { s with syncPolicy := ← value.alternative? syncPolicies }
  | "fsync_interval_ms" => return { s with syncInterval := ← value.unsigned? }
  | "compaction_threshold" => return { s with compactionThreshold := ← value.double? }
  | "log_level" => return { s with logLevel := ← value.text? }
  | _ => if value.isSound then return s else none

/-- The settings that a value describes. A moment describes nothing. -/
def ofToml? : Toml → Option Settings
  | .table _ members => members.foldlM change initial
  | .list items => (names.zip items).foldlM change initial
  | .moment => some initial
  | _ => none

/-- The settings of a document. -/
def ofDocument? (text : String) : Option Settings := do
  let members ← Toml.members? text
  if Toml.haveSound (members.filter fun member => member.1 ≠ "config") then
    ofToml? (← members.lookup "config")
  else none

/-- The settings of a file, given by what it holds; none if it cannot be read. -/
def ofFile (contents : Option String) : Except SettingsFault Settings :=
  match contents with
  | none => .error .unreadable
  | some text =>
    match ofDocument? text with
    | none => .error .malformed
    | some s => s.validate

end Settings

end RelationalStore
