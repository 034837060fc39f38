import RelationalStore.Text.Escaped

/-!
# Structured text

Values of JSON and their layout over several lines: two blanks for each level, empty
lists and objects on one line.
-/

namespace RelationalStore

/-- A value of JSON. The members of an object keep their order. -/
inductive Json where
  | null
  | bool (b : Bool)
  | number (n : Int)
  | text (s : String)
  | list (items : List Json)
  | object (members : List (String × Json))

namespace Json

/-- A character inside a quoted text. -/
def escapedChar (c : Char) : List Char :=
  let code := c.toNat
  if code = 34 ∨ code = 92 then ['\\', c]
  else if code = 8 then ['\\', 'b']
  else if code = 9 then ['\\', 't']
  else if code = 10 then ['\\', 'n']
  else if code = 12 then ['\\', 'f']
  else if code = 13 then ['\\', 'r']
  else if code < 32 then ['\\', 'u', '0', '0'] ++ Text.hexByte (UInt8.ofNat code)
  else [c]

/-- A text between double quotes. -/
def quotedText (s : String) : String :=
  "\"" ++ String.ofList (s.toList.flatMap escapedChar) ++ "\""

/-- The start of a line at a level. -/
def margin (level : Nat) : String :=
  "\n" ++ String.ofList (List.replicate (2 * level) ' ')

mutual

/-- The layout of a value at a level. -/
def layout (level : Nat) : Json → String
  | null => "null"
  | bool b => if b then "true" else "false"
  | number n => toString n
  | text s => quotedText s
  | list [] => "[]"
  | list (first :: rest) =>
    "[" ++ margin (level + 1) ++ layout (level + 1) first ++ layoutItems (level + 1) rest ++
      margin level ++ "]"
  | object [] => "\x7b\x7d"
  | object (first :: rest) =>
    "\x7b" ++ margin (level + 1) ++ layoutMember (level + 1) first ++
      layoutMembers (level + 1) rest ++ margin level ++ "\x7d"

/-- The layout of further items of a list. -/
def layoutItems (level : Nat) : List Json → String
  | [] => ""
  | item :: rest => "," ++ margin level ++ layout level item ++ layoutItems level rest

/-- The layout of one member of an object. -/
def layoutMember (level : Nat) : String × Json → String
  | (name, value) => quotedText name ++ ": " ++ layout level value

/-- The layout of further members of an object. -/
def layoutMembers (level : Nat) : List (String × Json) → String
  | [] => ""
  | entry :: rest => "," ++ margin level ++ layoutMember level entry ++ layoutMembers level rest

end

/-- A value laid out over several lines. -/
def pretty (value : Json) : String :=
  layout 0 value

end Json

end RelationalStore
