import RelationalStore.Catalog.Stored
import RelationalStore.CommandLine.Arguments
import RelationalStore.CommandLine.Files
import RelationalStore.CommandLine.Help
import RelationalStore.Digest.Sha3
import RelationalStore.Log.Basic
import RelationalStore.Report.Outcome
import RelationalStore.Report.Usage
import RelationalStore.Settings.File
import RelationalStore.Statement.Execution
import RelationalStore.Store.Memory

/-!
# Running a command

The settings are those of the file that is named, or those of the file at the usual
place if there is one, or the initial ones. Then the store is opened and the command
is run on it. What is refused is shown with its cause and ends with code 1; a command
line without meaning ends with code 2. A log is compacted into a file beside it, which
then takes its place.
-/

namespace RelationalStore

/-- How a run ends and what it prints. -/
structure Exit where
  code : Nat
  output : String
  complaint : String
  deriving DecidableEq, Repr

/-- The cause by its word, with what it is about in quotes. -/
def Error.record (e : Error) : String :=
  match e.subject? with
  | some subject => e.label ++ "(" ++ Text.quoted subject ++ ")"
  | none => e.label

namespace Exit

/-- The end of a run that prints a report. -/
def reported (report : String) : Exit :=
  ⟨0, report ++ "\n", ""⟩

/-- The end of a run that is refused. -/
def refused (e : Error) : Exit :=
  ⟨1, "", "Error: " ++ e.record ++ "\n"⟩

/-- The end of a run that gives no result. -/
def failed : Failure → Exit
  | .error e => refused e
  | .noSuchCell => ⟨101, "", "a row is too short\n"⟩
  | .improperInterval => ⟨101, "", "an interval of keys ends before it starts\n"⟩
  | .boundlessText => ⟨101, "", "a text is longer than any memory\n"⟩

end Exit

namespace Command

variable {σ : Type} [ByteStore σ]

/-- Runs a command on a catalog. The second part is the catalog afterwards. -/
def run (catalog : TableStore σ) (json : Bool) (command : Command) : Exit × TableStore σ :=
  match command.statement? with
  | none =>
    let usage := ByteStore.usage catalog.store
    (.reported (if json then usage.json.pretty else usage.text), catalog)
  | some statement =>
    let (result, catalog) := Statement.execute catalog statement
    match result with
    | .ok outcome => (.reported (if json then outcome.json.pretty else outcome.text), catalog)
    | .error failure => (.failed failure, catalog)

end Command

namespace CommandLine

/-- The usual place of the file of settings. -/
def usualConfig : String := "./config.toml"

/-- The path of a file in a directory. A slash at the end of that of the directory is
enough. -/
def inDirectory (directory name : String) : String :=
  if directory = "" || directory.toList.getLast? = some '/' then directory ++ name
  else directory ++ "/" ++ name

/-- The path of the log in a directory. -/
def logPath (directory : String) : String :=
  inDirectory directory "catalog.log"

/-- The path of the file that is to become the log in a directory. It stands beside the
log, whose own path is cut before its name and the idle parts in front of that. -/
def compactPath (directory : String) : String :=
  let place := ((FilePath.ofText? directory).map fun path => path.trimmed.text).getD directory
  inDirectory place "catalog.log.compact"

variable {m : Type → Type} [Monad m] [Files m]

/-- The settings of a file. -/
def readSettings (path : String) : m (Except SettingsFault Settings) := do
  let contents ← Files.read path
  return Settings.ofFile (contents.bind Bytes.toText?)

/-- The settings for a run. -/
def settings (config : Option String) : m (Except SettingsFault Settings) := do
  match config with
  | some path => readSettings path
  | none =>
    if ← Files.isThere usualConfig then readSettings usualConfig
    else return .ok Settings.initial

/-- Puts a compacted log in the place of the log in a directory. -/
def replaceLog (directory : String) (store : LogStore Sha3.checksum) :
    m (Except Error (LogStore Sha3.checksum)) := do
  if ← Files.write (compactPath directory) store.directory.logContents then
    if ← Files.move (compactPath directory) (logPath directory) then return .ok store
    else return .error (.io "cannot replace the log")
  else return .error (.io "cannot write the compacted log")

/-- The store of a log that is found in a directory. What follows its last entry is cut
off before it is compacted. -/
def recoverLog (stamp : UInt32) (s : Settings) (found : Bytes) :
    m (Except Error (LogStore Sha3.checksum)) := do
  let (d, log) := Log.recover Sha3.checksum (Directory.empty.replaceLog found)
  if ← Files.write (logPath s.storagePath) d.logContents then
    if log.exceeds s.compactionThreshold then
      match log.compact Sha3.checksum stamp d with
      | .ok (d, log) => replaceLog s.storagePath ⟨d, log, stamp⟩
      | .error e => return .error e
    else return .ok ⟨d, log, stamp⟩
  else return .error (.io "cannot cut the log")

/-- Makes the directory of a log, and says whether it is there now. An empty path is
that of the place where the program runs. -/
def makeStorage (directory : String) : m Bool :=
  if directory = "" then return true else Files.makeWay directory

/-- The log in a directory; both are made if they are missing. -/
def openLog (stamp : UInt32) (s : Settings) :
    m (Except Error (LogStore Sha3.checksum)) := do
  if ← makeStorage s.storagePath then
    match ← Files.readOrMake (logPath s.storagePath) with
    | some found => recoverLog stamp s found
    | none => return .error (.io "cannot open the log")
  else return .error (.io "cannot make the directory of the log")

/-- Runs a command on the log in a directory. -/
def runOnLog (stamp : UInt32) (s : Settings) (json : Bool) (command : Command) : m Exit := do
  match ← openLog stamp s with
  | .error e => return .refused e
  | .ok store =>
    let (exit, after) := command.run ⟨store⟩ json
    if ← Files.write (logPath s.storagePath) after.store.directory.logContents then return exit
    else return .refused (.io "cannot write the log")

/-- Runs a command with its options. -/
def runCommand (stamp : UInt32) (options : Options) (command : Command) : m Exit := do
  match ← settings options.config with
  | .error fault => return .refused fault.toError
  | .ok s =>
    match s.storeKind with
    | .memory => return (command.run ⟨Memory.empty⟩ options.json).1
    | .bitcask => runOnLog stamp s options.json command

/-- Does what a command line asks for. -/
def run (stamp : UInt32) (arguments : List String) : m Exit := do
  match Request.ofArguments arguments with
  | .run options command => runCommand stamp options command
  | .help topic => return ⟨0, Help.text topic, ""⟩
  | .version => return ⟨0, Help.versionText, ""⟩
  | .misuse => return ⟨2, "", Help.usage⟩

end CommandLine

end RelationalStore
