import RelationalStore.Toml.Value

/-!
# Documents of TOML

A document is a sequence of bindings and headers, each on a line of its own. A
binding belongs to the table of the last header before it, and the bindings before
the first header to the document itself.
-/

namespace RelationalStore.Toml

/-- What a line says. -/
inductive Line where
  | binding (key : Key) (value : Toml)
  /-- Opens a table. -/
  | header (key : Key)
  /-- Opens one more table of several. -/
  | repeated (key : Key)

/-- Reads what a line says. -/
def line : Reader Line := do
  if ← accept ['[', '['] then
    let k ← key
    expect [']', ']']
    return .repeated k
  else if ← accept ['['] then
    let k ← key
    expect [']']
    return .header k
  else
    let (k, v) ← binding blanks value
    return .binding k v

/-- Reads at most so many lines up to the end of the text. -/
def linesWithin : Nat → Reader (List Line)
  | 0 => fail
  | count + 1 => do
    gap
    if ← atEnd then return []
    else
      let first ← line
      lineEnd
      let others ← linesWithin count
      return first :: others

/-- Reads lines up to the end of the text. -/
def lines : Reader (List Line) := do
  linesWithin ((← get).length + 1)

/-- A document that is read up to some line. -/
structure Progress where
  content : Content
  /-- The names that lead to the table of the last header. -/
  location : List String

/-- The document after one more line. -/
def Progress.next (p : Progress) : Line → Option Progress
  | .binding k v => do
    let content ← Content.changeAt .passed (Content.bind k.path k.name v) p.location p.content
    return { p with content := content }
  | .header k => do
    return ⟨← p.content.openTable k.path k.name, k.path ++ [k.name]⟩
  | .repeated k => do
    return ⟨← p.content.addTable k.path k.name, k.path ++ [k.name]⟩

/-- The text without the mark of its byte order. -/
def withoutMark : List Char → List Char
  | [] => []
  | c :: rest => if c.toNat = 0xFEFF then rest else c :: rest

/-- The members of a document. -/
def members? (document : String) : Option (List (String × Toml)) := do
  let (all, _) ← lines (withoutMark document.toList)
  let last ← all.foldlM Progress.next ⟨⟨.header, []⟩, []⟩
  return last.content.members

end RelationalStore.Toml
