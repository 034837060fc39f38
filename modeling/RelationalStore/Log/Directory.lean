import RelationalStore.Bytes.Basic

/-!
# The directory of a log

A log is a file in a directory. Putting a new file in its place does not touch the
old one, which stays for those who have it open. Files are therefore numbered, and
the directory says which of them is the log.
-/

namespace RelationalStore

/-- The log files that have been made in a directory. -/
structure Directory where
  /-- What the files hold, by number. -/
  files : List Bytes
  /-- The number of the file that is the log, once there is one. -/
  log : Option Nat
  deriving DecidableEq, Repr

namespace Directory

/-- A directory without a log. -/
def empty : Directory := ⟨[], none⟩

/-- What a file holds. -/
def contents (d : Directory) (file : Nat) : Bytes :=
  d.files[file]?.getD []

/-- The directory with other contents of a file. -/
def write (d : Directory) (file : Nat) (contents : Bytes) : Directory :=
  { d with files := d.files.set file contents }

/-- The directory with more bytes at the end of a file. -/
def append (d : Directory) (file : Nat) (more : Bytes) : Directory :=
  d.write file (d.contents file ++ more)

/-- The directory with a new file as its log. -/
def replaceLog (d : Directory) (contents : Bytes) : Directory :=
  ⟨d.files ++ [contents], some d.files.length⟩

/-- The directory with a log, and the number of the log; a log that is made is empty. -/
def withLog (d : Directory) : Directory × Nat :=
  match d.log with
  | some file => (d, file)
  | none => (d.replaceLog [], d.files.length)

/-- What the log holds; nothing if there is none. -/
def logContents (d : Directory) : Bytes :=
  match d.log with
  | some file => d.contents file
  | none => []

end Directory

end RelationalStore
