import RelationalStore.Bytes.Basic
import RelationalStore.Text.Fields

/-!
# Files

A program reaches files and directories by the texts of their paths. A path is cut at
its slashes, but for one in front of it that stands for the root: an empty part and a
dot stay in a directory, two dots lead out of it, and a name leads to what the
directory has under it.
-/

namespace RelationalStore

/-- Access to files in the course of a program. -/
class Files (m : Type → Type) where
  /-- Whether a file or a directory is there. -/
  isThere : String → m Bool
  /-- What a file holds; none if it cannot be read. -/
  read : String → m (Option Bytes)
  /-- What a file holds, which is made empty if it is not there; none if that cannot be. -/
  readOrMake : String → m (Option Bytes)
  /-- Makes a directory in one that is there, and says whether it is there now. -/
  makeDirectory : String → m Bool
  /-- Puts other contents into a file, which is made if it is not there, and says
  whether they are in it now. -/
  write : String → Bytes → m Bool
  /-- Puts a file in the place of another one, and says whether it is there now. -/
  move : String → String → m Bool

/-- A path, which starts at the root of all files or where the program runs. -/
structure FilePath where
  fromRoot : Bool
  parts : List String
  deriving DecidableEq, Repr

namespace FilePath

/-- The parts of a path between its slashes. -/
def partsOf (chars : List Char) : List String :=
  (Text.fields '/' chars).map String.ofList

/-- The path of a text. No path is empty, holds the character of number 0, or takes
more than 4095 bytes. -/
def ofText? (text : String) : Option FilePath :=
  let chars := text.toList
  if chars.isEmpty || chars.any (·.toNat = 0) || 4095 < Text.utf8Length chars then none
  else
    match chars with
    | '/' :: rest => some ⟨true, partsOf rest⟩
    | _ => some ⟨false, partsOf chars⟩

/-- Whether a part of a path stays in the directory where it is met. -/
def isIdle (part : String) : Bool :=
  part = "" || part = "."

/-- The text of a path. -/
def text (path : FilePath) : String :=
  (if path.fromRoot then "/" else "") ++ "/".intercalate path.parts

/-- A path without the idle parts at its end. The first part of a path that does not
start at the root is kept. -/
def trimmed (path : FilePath) : FilePath :=
  let kept := if path.fromRoot then 0 else 1
  let later := ((path.parts.drop kept).reverse.dropWhile isIdle).reverse
  { path with parts := path.parts.take kept ++ later }

/-- The paths that lead to a path, the shortest first. Idle parts are left out of them. -/
def leading (path : FilePath) : List FilePath :=
  let steps := path.parts.filter (!isIdle ·)
  (List.range (steps.length - 1)).map fun n => { path with parts := steps.take (n + 1) }

end FilePath

namespace Files

variable {m : Type → Type} [Monad m] [Files m]

/-- Makes directories, one after another, and says whether they are all there now. -/
def makeDirectories : List String → m Bool
  | [] => return true
  | first :: rest => do
    if ← makeDirectory first then makeDirectories rest else return false

/-- Makes a directory and those that lead to it, and says whether it is there now. -/
def makeWay (text : String) : m Bool :=
  match FilePath.ofText? text with
  | some path => makeDirectories (path.leading.map FilePath.text ++ [text])
  | none => return false

end Files

end RelationalStore
