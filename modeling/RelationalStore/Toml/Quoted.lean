import RelationalStore.Text.Integer
import RelationalStore.Toml.Reader

/-!
# Quoted text in TOML

A text stands between quotes, or between three of them on each side if it goes over
several lines. Between double quotes, an escape character gives the next character
another meaning; between single quotes it stands for itself.
-/

namespace RelationalStore.Toml

/-- The mark around a text with escapes. -/
def doubleQuote : Char := Char.ofNat 34

/-- The mark around a text without escapes. -/
def singleQuote : Char := Char.ofNat 39

/-- The value of a hexadecimal digit. -/
def hexValue? (c : Char) : Option Nat :=
  if 'a' ≤ c ∧ c ≤ 'f' then some (c.toNat - 'a'.toNat + 10)
  else if 'A' ≤ c ∧ c ≤ 'F' then some (c.toNat - 'A'.toNat + 10)
  else Text.digit? c

/-- The character of a number in so many hexadecimal digits. -/
def numbered? (width : Nat) (digits : List Char) : Option Char := do
  if digits.length = width then
    let n ← digits.foldlM (fun n c => do return 16 * n + (← hexValue? c)) 0
    if n.isValidChar then return Char.ofNat n else none
  else none

/-- The character that a letter stands for behind an escape character. -/
def lettered? (letter : Char) : Option Char :=
  [('b', 8), ('t', 9), ('n', 10), ('f', 12), ('r', 13), ('e', 27), (doubleQuote, 34),
    ('\\', 92)].lookup letter |>.map Char.ofNat

/-- What follows an escape character: the character it stands for, and how many
characters it takes. -/
def escape? : List Char → Option (Char × Nat)
  | [] => none
  | letter :: rest =>
    match [('x', 2), ('u', 4), ('U', 8)].lookup letter with
    | some width => (numbered? width (rest.take width)).map fun c => (c, width + 1)
    | none => (lettered? letter).map fun c => (c, 1)

/-- Reads a text of one line up to its closing mark. -/
def shortText (mark : Char) (input : List Char) : Option (List Char × List Char) :=
  match input with
  | [] => none
  | c :: rest =>
    if c = mark then some ([], rest)
    else if c = '\\' ∧ mark = doubleQuote then do
      let (d, count) ← escape? rest
      let (chars, rest) ← shortText mark (rest.drop count)
      return (d :: chars, rest)
    else if isShown c then do
      let (chars, rest) ← shortText mark rest
      return (c :: chars, rest)
    else none
termination_by input.length
decreasing_by all_goals simp only [List.length_cons, List.length_drop]; omega

/-- The text behind white space of any kind. -/
def dropWhite : List Char → List Char
  | '\r' :: '\n' :: rest => dropWhite rest
  | c :: rest => if isBlank c || c = '\n' then dropWhite rest else c :: rest
  | [] => []

/-- How many characters follow an escape character that hides a line break: the break
itself and all white space around it. -/
def hiddenBreak? (input : List Char) : Option Nat :=
  match input.dropWhile isBlank with
  | '\n' :: rest => some (input.length - (dropWhite rest).length)
  | '\r' :: '\n' :: rest => some (input.length - (dropWhite rest).length)
  | _ => none

/-- Closes a text of several lines behind its first closing mark. Two more marks are
needed, and up to two before them belong to the text. -/
def closing? (mark : Char) (input : List Char) : Option (List Char × List Char) :=
  let count := (input.takeWhile (· = mark)).length
  if count < 2 then none
  else
    let inner := min 2 (count - 2)
    some (List.replicate inner mark, input.drop (inner + 2))

/-- Reads a text of several lines up to its closing marks. -/
def longText (mark : Char) (input : List Char) : Option (List Char × List Char) :=
  match input with
  | [] => none
  | c :: rest =>
    match if c = mark then closing? mark rest else none with
    | some closed => some closed
    | none =>
      if c = '\\' ∧ mark = doubleQuote then
        match hiddenBreak? rest with
        | some count => longText mark (rest.drop count)
        | none => do
          let (d, count) ← escape? rest
          let (chars, rest) ← longText mark (rest.drop count)
          return (d :: chars, rest)
      else if isShown c ∨ c = '\n' ∨ (c = '\r' ∧ rest.head? = some '\n') then do
        let (chars, rest) ← longText mark rest
        return (c :: chars, rest)
      else none
termination_by input.length
decreasing_by all_goals simp only [List.length_cons, List.length_drop]; omega

/-- Reads a text of one line between marks. -/
def shortQuoted (mark : Char) : Reader String := do
  expect [mark]
  return String.ofList (← shortText mark)

/-- Reads a text between marks. A line break right behind three opening marks does not
belong to the text. -/
def quoted (mark : Char) : Reader String := do
  if ← accept [mark, mark, mark] then
    let _ ← lineBreak
    return String.ofList (← longText mark)
  else shortQuoted mark

end RelationalStore.Toml
