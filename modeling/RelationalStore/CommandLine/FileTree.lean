import RelationalStore.CommandLine.Files

/-!
# Trees of files

A tree of files is the model of what a program sees of them. It maps the names that
lead to a place from the root to a file or a directory, and a program runs at one of
its places.
-/

namespace RelationalStore

/-- What stands at a place. -/
inductive FileNode where
  | file (contents : Bytes)
  | directory
  deriving DecidableEq

/-- Files and directories by their places. The root is a directory. -/
structure FileTree where
  /-- Where the program runs. -/
  here : List String
  nodes : List (List String × FileNode)

namespace FileTree

/-- What stands at a place. -/
def node? (tree : FileTree) (place : List String) : Option FileNode :=
  if place.isEmpty then some .directory else tree.nodes.lookup place

/-- The tree with another node at a place. -/
def put (tree : FileTree) (place : List String) (node : FileNode) : FileTree :=
  { tree with nodes := (place, node) :: tree.nodes.filter fun entry => entry.1 ≠ place }

/-- The tree with nothing at a place. -/
def remove (tree : FileTree) (place : List String) : FileTree :=
  { tree with nodes := tree.nodes.filter fun entry => entry.1 ≠ place }

/-- Where a part of a path leads from a place, which has to be a directory. No name
takes more than 255 bytes. -/
def follow? (tree : FileTree) (place : List String) (part : String) : Option (List String) :=
  if tree.node? place ≠ some .directory then none
  else if FilePath.isIdle part then some place
  else if part = ".." then some place.dropLast
  else if 255 < Text.utf8Length part.toList then none
  else some (place ++ [part])

/-- The place that a text leads to; nothing need stand there. -/
def place? (tree : FileTree) (text : String) : Option (List String) := do
  let path ← FilePath.ofText? text
  path.parts.foldlM tree.follow? (if path.fromRoot then [] else tree.here)

/-- The place of a directory that a text leads to, also if a slash follows its name. -/
def directoryPlace? (tree : FileTree) (text : String) : Option (List String) := do
  let path ← FilePath.ofText? text
  let parts := (path.parts.reverse.dropWhile (· = "")).reverse
  parts.foldlM tree.follow? (if path.fromRoot then [] else tree.here)

/-- What stands where a text leads to. -/
def find? (tree : FileTree) (text : String) : Option FileNode := do
  tree.node? (← tree.place? text)

/-- What a file holds. -/
def read (tree : FileTree) (text : String) : Option Bytes :=
  match tree.find? text with
  | some (.file contents) => some contents
  | _ => none

/-- The tree with other contents of a file. No directory may stand in its place. -/
def write? (tree : FileTree) (text : String) (contents : Bytes) : Option FileTree := do
  let place ← tree.place? text
  if tree.node? place = some .directory then none else return tree.put place (.file contents)

/-- The tree with a directory, which may be there already. -/
def withDirectory? (tree : FileTree) (text : String) : Option FileTree := do
  let place ← tree.directoryPlace? text
  match tree.node? place with
  | some .directory => return tree
  | some (.file _) => none
  | none => return tree.put place .directory

/-- The tree with a file in the place of another one. -/
def move? (tree : FileTree) (old new : String) : Option FileTree := do
  let contents ← tree.read old
  let place ← tree.place? old
  (tree.remove place).write? new contents

/-- A step that says whether it can be made; if not, the tree stays as it is. -/
def attempt (tree : FileTree) (next : Option FileTree) : Bool × FileTree :=
  (next.isSome, next.getD tree)

instance : Files (StateM FileTree) where
  isThere text := fun tree => ((tree.find? text).isSome, tree)
  read text := fun tree => (tree.read text, tree)
  readOrMake text := fun tree =>
    match tree.read text with
    | some contents => (some contents, tree)
    | none =>
      match tree.write? text [] with
      | some made => (some [], made)
      | none => (none, tree)
  makeDirectory text := fun tree => tree.attempt (tree.withDirectory? text)
  write text contents := fun tree => tree.attempt (tree.write? text contents)
  move old new := fun tree => tree.attempt (tree.move? old new)

end FileTree

end RelationalStore
