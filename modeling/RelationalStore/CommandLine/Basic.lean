import RelationalStore.Statement.Basic

/-!
# Commands

A command asks for a report on what is stored, or it drops a table. A command line
names one command with its operands, behind options that hold for all commands.
-/

namespace RelationalStore

/-- A command with its operands. -/
inductive Command where
  /-- Lists the tables. -/
  | tables
  /-- Describes the columns of a table. -/
  | describe (table : String)
  /-- Gives all columns of the product of some tables. -/
  | select (tables : List String)
  /-- Removes a table. -/
  | drop (table : String)
  /-- Reports the space that is taken. -/
  | status
  deriving DecidableEq, Repr

/-- The statement that a command executes, if it executes one. -/
def Command.statement? : Command → Option Statement
  | .tables => some .showTables
  | .describe table => some (.describe table)
  | .select names => some (.select none (names.map fun name => ⟨name, none⟩) none)
  | .drop table => some (.dropTable table)
  | .status => none

/-- The words that begin a command. -/
inductive Verb where
  | tables
  | describe
  | select
  | drop
  | status
  | help
  deriving DecidableEq, Repr

namespace Verb

/-- All words that begin a command, in the order in which they are listed. -/
def all : List Verb := [tables, describe, select, drop, status, help]

/-- The word as it is written. -/
def name : Verb → String
  | tables => "tables"
  | describe => "describe"
  | select => "select"
  | drop => "drop"
  | status => "status"
  | help => "help"

/-- The word that is written so. -/
def ofName? (name : String) : Option Verb :=
  all.find? (·.name == name)

/-- Whether a command may have another operand behind so many. -/
def takesMore (verb : Verb) (count : Nat) : Bool :=
  match verb with
  | tables | status => false
  | describe | drop => count = 0
  | select | help => true

/-- The command that a word begins, if it has the operands it needs. -/
def command? : Verb → List String → Option Command
  | tables, [] => some .tables
  | describe, [table] => some (.describe table)
  | select, first :: rest => some (.select (first :: rest))
  | drop, [table] => some (.drop table)
  | status, [] => some .status
  | _, _ => none

end Verb

/-- The options in front of a command. -/
structure Options where
  /-- The path of the file of settings, if it is given. -/
  config : Option String
  /-- Whether reports are structured text. -/
  json : Bool
  deriving DecidableEq, Repr

/-- What a command line asks for. -/
inductive Request where
  | run (options : Options) (command : Command)
  /-- Asks how the program, or one of its commands, is used. -/
  | help (topic : Option Verb)
  | version
  /-- The line has no meaning. -/
  | misuse
  deriving DecidableEq, Repr

end RelationalStore
