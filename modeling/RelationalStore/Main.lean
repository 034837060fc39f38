import RelationalStore.CommandLine.Execution
import Std.Time.DateTime.Timestamp

/-!
# The program

The command line on the files of the system.
-/

namespace RelationalStore.Program

/-- Whether the file or directory at a path can be opened. -/
def isThere (path : String) : IO Bool := do
  try
    let _ ← IO.FS.Handle.mk path IO.FS.Mode.read
    return true
  catch _ => return false

/-- What a file holds, if it can be read. -/
def read (path : String) : IO (Option Bytes) := do
  try
    let contents ← IO.FS.readBinFile path
    return some contents.data.toList
  catch _ => return none

/-- What a file holds, which is made empty if it is not there. -/
def readOrMake (path : String) : IO (Option Bytes) := do
  try
    let _ ← IO.FS.Handle.mk path IO.FS.Mode.append
    read path
  catch _ => return none

/-- Makes a directory, and says whether it is there now. -/
def makeDirectory (path : String) : IO Bool := do
  try
    IO.FS.createDir path
    return true
  catch _ => isThere (path ++ "/.")

/-- Writes a file, and says whether it is written now. -/
def write (path : String) (contents : Bytes) : IO Bool := do
  try
    IO.FS.writeBinFile path ⟨contents.toArray⟩
    return true
  catch _ => return false

/-- Puts a file in the place of another one, and says whether it is there now. -/
def move (old new : String) : IO Bool := do
  try
    IO.FS.rename old new
    return true
  catch _ => return false

instance : Files IO := ⟨isThere, read, readOrMake, makeDirectory, write, move⟩

/-- Runs the command line, prints what it reports, and gives its code. -/
def run (arguments : List String) : IO UInt32 := do
  let now ← Std.Time.Timestamp.now
  let stamp := UInt32.ofNat now.toSecondsSinceUnixEpoch.val.toNat
  let exit ← CommandLine.run stamp arguments
  IO.print exit.output
  IO.eprint exit.complaint
  return UInt32.ofNat exit.code

end RelationalStore.Program

/-- The program. -/
def main (arguments : List String) : IO UInt32 :=
  RelationalStore.Program.run arguments
