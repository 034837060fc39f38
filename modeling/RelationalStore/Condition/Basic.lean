import RelationalStore.Condition.Truth
import RelationalStore.Schema.Resolution

/-!
# Conditions on rows

A condition compares constants and columns and combines the comparisons. It is
evaluated against a row laid out by a schema. Both sides of a combination are always
evaluated, so a fault in one of them is reported whatever the other says; the
leftmost fault is the one reported.
-/

namespace RelationalStore

/-- How two operands are compared. The last two look at the left operand alone. -/
inductive Comparator where
  | eq
  | notEq
  | greater
  | greaterEq
  | less
  | lessEq
  | isNull
  | isNotNull
  deriving DecidableEq, Repr

namespace Comparator

/-- Whether the comparator looks at the left operand alone. -/
def isUnary : Comparator → Bool
  | isNull | isNotNull => true
  | _ => false

/-- The comparator as it is written. -/
def text : Comparator → String
  | eq => "="
  | notEq => "!="
  | greater => ">"
  | greaterEq => ">="
  | less => "<"
  | lessEq => "<="
  | isNull => "is null"
  | isNotNull => "is not null"

/-- Whether a comparator of two operands holds of their order. -/
def accepts : Comparator → Ordering → Bool
  | eq, order => order.isEq
  | notEq, order => order.isNe
  | greater, order => order.isGT
  | greaterEq, order => order.isGE
  | less, order => order.isLT
  | lessEq, order => order.isLE
  | isNull, _ | isNotNull, _ => false

end Comparator

/-- What a comparison compares: a constant, or a column with or without its table. -/
inductive Operand where
  | const (value : Value)
  | column (table : Option String) (name : String)
  deriving DecidableEq, Repr

namespace Operand

/-- The value of an operand in a row. -/
def value (operand : Operand) (row : Row) (schema : Schema) : Except Error Value :=
  match operand with
  | const v => .ok v
  | column table name => do
    let position ← schema.resolve table name
    match row[position]? with
    | some v => .ok v
    | none =>
      .error (.invalidData
        s!"row has {row.length} values but column {name} is at {position}")

/-- The operand as it is written; a constant text stands in single quotes. -/
def text : Operand → String
  | const (.char s) => "'" ++ s ++ "'"
  | const v => v.text
  | column table name => columnReference table name

end Operand

/-- A single comparison. -/
structure Comparison where
  comparator : Comparator
  left : Operand
  /-- Not looked at by a comparator of one operand. -/
  right : Operand
  deriving DecidableEq, Repr

namespace Comparison

/-- The truth of a comparison on a row: unknown as soon as one side is NULL, and a
fault if the two sides have different types. -/
def evaluate (c : Comparison) (row : Row) (schema : Schema) : Except Error Truth := do
  let left ← c.left.value row schema
  match c.comparator with
  | .isNull => return Truth.ofBool left.isNull
  | .isNotNull => return Truth.ofBool (!left.isNull)
  | comparator =>
    let right ← c.right.value row schema
    if left.comparable right then
      if left.isNull || right.isNull then return .unknown
      else
        let order ← left.compare right
        return Truth.ofBool (comparator.accepts order)
    else .error .incomparable

/-- The comparison as it is written. -/
def text (c : Comparison) : String :=
  if c.comparator.isUnary then c.left.text ++ " " ++ c.comparator.text
  else c.left.text ++ " " ++ c.comparator.text ++ " " ++ c.right.text

end Comparison

/-- A condition on a row. -/
inductive Condition where
  | not (c : Condition)
  | and (left right : Condition)
  | or (left right : Condition)
  | holds (c : Comparison)
  deriving DecidableEq, Repr

namespace Condition

/-- The condition that a column has a value. -/
def columnIs (column : String) (v : Value) : Condition :=
  .holds ⟨.eq, .column none column, .const v⟩

/-- The condition that each column has its value, combined from left to right; none
for no columns at all. -/
def conjunction : List (String × Value) → Option Condition
  | [] => none
  | (column, v) :: rest =>
    some (rest.foldl (fun c pair => .and c (columnIs pair.1 pair.2)) (columnIs column v))

/-- The truth of a condition on a row. Both sides of a combination are evaluated,
the left one first. -/
def evaluate : Condition → Row → Schema → Except Error Truth
  | not c, row, schema => do
    let t ← c.evaluate row schema
    return t.not
  | and a b, row, schema => do
    let s ← a.evaluate row schema
    let t ← b.evaluate row schema
    return s.and t
  | or a b, row, schema => do
    let s ← a.evaluate row schema
    let t ← b.evaluate row schema
    return s.or t
  | holds c, row, schema => c.evaluate row schema

/-- The condition as it is written, with brackets around every combination. -/
def text : Condition → String
  | not c => "(not " ++ c.text ++ ")"
  | and a b => "(" ++ a.text ++ " and " ++ b.text ++ ")"
  | or a b => "(" ++ a.text ++ " or " ++ b.text ++ ")"
  | holds c => c.text

/-- Keeps the entries on which a test holds; the first fault ends the walk. -/
def keep {α : Type} (test : α → Except Error Bool) : List α → Except Error (List α)
  | [] => .ok []
  | entry :: rest => do
    let holds ← test entry
    let kept ← keep test rest
    return if holds then entry :: kept else kept

/-- The rows on which the condition is true, each with its position, in order. No
condition at all is true of every row. -/
def matching (condition : Option Condition) (schema : Schema) (rows : List Row) :
    Except Error (List (Row × Nat)) :=
  match condition with
  | none => .ok rows.zipIdx
  | some c =>
    keep (fun entry => do
      let t ← c.evaluate entry.1 schema
      return t = .yes) rows.zipIdx

/-- The positions of the rows on which the condition is true. -/
def filter (condition : Option Condition) (schema : Schema) (rows : List Row) :
    Except Error (List Nat) := do
  let entries ← matching condition schema rows
  return entries.map Prod.snd

end Condition

end RelationalStore
