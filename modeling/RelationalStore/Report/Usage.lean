import RelationalStore.Decimal.Text
import RelationalStore.Report.Json
import RelationalStore.Store.Basic
import RelationalStore.Text.Quoted

/-!
# Reports of space

The space that a byte store takes, as a record of its fields and as structured text.
The share of what is not needed any more is a percentage with two places.
-/

namespace RelationalStore

namespace Usage

/-- The numbers of a report, each with its name. -/
def counts (u : Usage) : List (String × Nat) :=
  [("logical_size", u.logicalSize), ("total_count", u.totalCount),
    ("total_size", u.totalSize), ("live_size", u.liveSize), ("garbage_size", u.garbageSize)]

/-- The share of what is not needed any more, as a percentage with two places. -/
def garbageText (u : Usage) : String :=
  (Double.ofFloat u.garbageRate).fixedText 2

/-- The record of the fields, one on each line. -/
def record (u : Usage) : String :=
  let fields := ("name", Text.quoted u.name) :: u.counts.map fun (name, n) => (name, toString n)
  "EngineStatus \x7b\n" ++
    String.join (fields.map fun (name, value) => s!"    {name}: {value},\n") ++ "\x7d"

/-- The report as text. -/
def text (u : Usage) : String :=
  u.record ++ "\ngarbage rate: " ++ u.garbageText ++ "%"

/-- The report as structured text. -/
def json (u : Usage) : Json :=
  .object (("name", .text u.name) :: u.counts.map fun (name, n) => (name, .number n))

end Usage

end RelationalStore
