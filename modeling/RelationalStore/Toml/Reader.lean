/-!
# Readers of text

A reader takes a value from the front of a text, or it fails. White space is made of
blanks, which are spaces and tabs, and of line breaks. A comment goes from a number
sign to the end of its line.
-/

namespace RelationalStore.Toml

/-- A reader of values from the front of a text; it fails or leaves a rest. -/
abbrev Reader := StateT (List Char) Option

/-- A reader that always fails. -/
def fail {α : Type} : Reader α := fun _ => none

/-- The next character, which is left where it is. -/
def peek? : Reader (Option Char) := fun input => some (input.head?, input)

/-- Whether the text is at its end. -/
def atEnd : Reader Bool := fun input => some (input.isEmpty, input)

/-- Takes the characters at the front that have a property. -/
def takeWhile (property : Char → Bool) : Reader (List Char) := fun input =>
  some (input.takeWhile property, input.dropWhile property)

/-- Takes the given characters, if they come next. -/
def accept (word : List Char) : Reader Bool := fun input =>
  some (if word.isPrefixOf input then (true, input.drop word.length) else (false, input))

/-- Takes the given characters, which have to come next. -/
def expect (word : List Char) : Reader Unit := do
  if ← accept word then return () else fail

/-- Whether a character is a space or a tab. -/
def isBlank (c : Char) : Bool :=
  c = ' ' || c = '\t'

/-- Whether a character may stand in a text of one line: it is a tab, or no control. -/
def isShown (c : Char) : Bool :=
  c = '\t' || (32 ≤ c.toNat && c.toNat ≠ 127)

/-- Skips blanks. -/
def blanks : Reader Unit := do
  let _ ← takeWhile isBlank

/-- Skips a comment, if there is one. -/
def comment : Reader Unit := do
  if ← accept ['#'] then
    let _ ← takeWhile isShown

/-- Takes a line break, if it comes next. -/
def lineBreak : Reader Bool := do
  if ← accept ['\n'] then return true else accept ['\r', '\n']

/-- Skips the rest of a line, which holds at most a comment. -/
def lineEnd : Reader Unit := do
  blanks
  comment
  if ← lineBreak then return ()
  else if ← atEnd then return ()
  else fail

/-- Skips white space and comments over at most so many line breaks. -/
def gapWithin : Nat → Reader Unit
  | 0 => return ()
  | count + 1 => do
    blanks
    comment
    if ← lineBreak then gapWithin count

/-- Skips white space and comments over any number of lines. -/
def gap : Reader Unit := do
  gapWithin ((← get).length + 1)

end RelationalStore.Toml
