import RelationalStore.Toml.Members
import RelationalStore.Toml.Moment

/-!
# Keys and values in TOML

Lists and tables in braces may go over several lines, and a comma may follow their
last item. They are nested in at most eighty levels, and a key has at most eighty
parts, which stand on one line.
-/

namespace RelationalStore.Toml

/-- A key: the tables it leads through, and the name that it ends in. -/
structure Key where
  path : List String
  name : String

/-- Whether a character may stand in a name without quotes. -/
def isBare (c : Char) : Bool :=
  c.isAlphanum || c = '_' || c = '-'

/-- Reads one part of a key. -/
def keyPart : Reader String := do
  match ← peek? with
  | some c =>
    if c = doubleQuote ∨ c = singleQuote then shortQuoted c
    else
      let name ← takeWhile isBare
      if name.isEmpty then fail else return String.ofList name
  | none => fail

/-- Reads a key of at most so many parts, and the blanks around them. -/
def keyWithin : Nat → Reader Key
  | 0 => fail
  | count + 1 => do
    blanks
    let first ← keyPart
    blanks
    if ← accept ['.'] then
      let key ← keyWithin count
      return { key with path := first :: key.path }
    else return ⟨[], first⟩

/-- Reads a key and the blanks around it. -/
def key : Reader Key :=
  keyWithin 80

/-- Whether a character may stand in a value without quotes and brackets. -/
def isPlain (c : Char) : Bool :=
  c ∉ ['=', ',', '[', ']', '\x7b', '\x7d', ' ', '\t', '#', '\r', '\n']

/-- Reads a number or a truth value. -/
def word : Reader Toml := do
  let chars ← takeWhile isPlain
  if chars = ['t', 'r', 'u', 'e'] then return .boolean true
  else if chars = ['f', 'a', 'l', 's', 'e'] then return .boolean false
  else
    match number? chars with
    | some value => return value
    | none => fail

/-- Reads a value that is no list and no table. -/
def scalar : Reader Toml := do
  match ← peek? with
  | some c =>
    if c = doubleQuote ∨ c = singleQuote then return .text (← quoted c)
    else
      match dateTime (← get) with
      | some ((), rest) =>
        set rest
        return .moment
      | none => word
  | none => fail

/-- Reads at most so many items up to a closing bracket. Commas stand between them. -/
def itemsWithin {α : Type} (close : Char) (item : Reader α) : Nat → Reader (List α)
  | 0 => fail
  | count + 1 => do
    gap
    if ← accept [close] then return []
    else
      let first ← item
      gap
      if ← accept [','] then
        let others ← itemsWithin close item count
        return first :: others
      else
        expect [close]
        return [first]

/-- Reads items up to a closing bracket. -/
def items {α : Type} (close : Char) (item : Reader α) : Reader (List α) := do
  itemsWithin close item ((← get).length + 1)

/-- Reads a key and its value, with white space of some kind around the mark between
them. -/
def binding (space : Reader Unit) (value : Reader Toml) : Reader (Key × Toml) := do
  let k ← key
  space
  expect ['=']
  space
  return (k, ← value)

/-- The table of some bindings, in braces. -/
def bracedTable (bindings : List (Key × Toml)) : Option Toml := do
  let content ← bindings.foldlM (fun c (k, v) => Content.bind k.path k.name v c)
    (⟨.braced, []⟩ : Content)
  return content.toToml

/-- Reads a value with lists and tables in at most so many levels. -/
def valueWithin : Nat → Reader Toml
  | 0 => scalar
  | levels + 1 => do
    if ← accept ['['] then
      return .list (← items ']' (valueWithin levels))
    else if ← accept ['\x7b'] then
      bracedTable (← items '\x7d' (binding gap (valueWithin levels)))
    else scalar

/-- Reads a value. -/
def value : Reader Toml :=
  valueWithin 80

end RelationalStore.Toml
