import RelationalStore.Text.Integer
import RelationalStore.Toml.Number

/-!
# Dates and times in TOML

A moment is a date of the calendar, a time of day, or a date and a time with or
without the distance to universal time. Only its form is checked here.
-/

namespace RelationalStore.Toml

/-- The number in two digits. -/
def pair? (a b : Char) : Option Nat := do
  return 10 * (← Text.digit? a) + (← Text.digit? b)

/-- The number of days in a month. -/
def daysIn (year month : Nat) : Nat :=
  if month = 2 then
    if year % 4 = 0 ∧ (year % 100 ≠ 0 ∨ year % 400 = 0) then 29 else 28
  else if month ∈ [4, 6, 9, 11] then 30
  else 31

/-- Reads a date. -/
def date : Reader Unit
  | y₁ :: y₂ :: y₃ :: y₄ :: '-' :: m₁ :: m₂ :: '-' :: d₁ :: d₂ :: rest => do
    let year := 100 * (← pair? y₁ y₂) + (← pair? y₃ y₄)
    let month ← pair? m₁ m₂
    let day ← pair? d₁ d₂
    if (1 ≤ month ∧ month ≤ 12) ∧ (1 ≤ day ∧ day ≤ daysIn year month) then some ((), rest)
    else none
  | _ => none

/-- Reads hours and minutes. -/
def clock : Reader Unit
  | h₁ :: h₂ :: ':' :: m₁ :: m₂ :: rest => do
    let hour ← pair? h₁ h₂
    let minute ← pair? m₁ m₂
    if hour ≤ 23 ∧ minute ≤ 59 then some ((), rest) else none
  | _ => none

/-- Reads a fraction of a second, if there is one. -/
def secondFraction : Reader Unit
  | '.' :: rest =>
    let (digits, rest) := rest.span isDigit
    if digits.isEmpty then none else some ((), rest)
  | rest => some ((), rest)

/-- Reads seconds, if there are any. A minute may have one second more than sixty. -/
def seconds : Reader Unit
  | ':' :: s₁ :: s₂ :: rest => do
    let second ← pair? s₁ s₂
    if second ≤ 60 then secondFraction rest else none
  | rest => some ((), rest)

/-- Reads a time of day. -/
def time : Reader Unit := do
  clock
  seconds

/-- Reads the distance to universal time, if it is given. -/
def distance : Reader Unit
  | 'Z' :: rest => some ((), rest)
  | 'z' :: rest => some ((), rest)
  | '+' :: rest => clock rest
  | '-' :: rest => clock rest
  | rest => some ((), rest)

/-- Reads what follows a date: a time, if a mark for it comes next. -/
def dayTime : Reader Unit
  | 'T' :: rest => (do time; distance : Reader Unit) rest
  | 't' :: rest => (do time; distance : Reader Unit) rest
  | ' ' :: d :: rest =>
    if isDigit d then (do time; distance : Reader Unit) (d :: rest)
    else some ((), ' ' :: d :: rest)
  | rest => some ((), rest)

/-- Reads a date, a time of day, or both. -/
def dateTime : Reader Unit := fun input =>
  match date input with
  | some ((), rest) => dayTime rest
  | none => time input

end RelationalStore.Toml
