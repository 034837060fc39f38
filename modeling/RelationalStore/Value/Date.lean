import RelationalStore.Error
import RelationalStore.Text.Fields
import RelationalStore.Text.Integer

/-!
# Calendar dates

A date literal is written `YYYY-MM-DD`. Months have up to 31 days: a literal is
checked field by field, not against the calendar. Dates that reach a table by
other ways than a literal are not checked at all.
-/

namespace RelationalStore

/-- A year, a month and a day. -/
structure Date where
  year : UInt32
  month : UInt32
  day : UInt32
  deriving DecidableEq, Repr

namespace Date

/-- The date of the three fields, if each is in its range. -/
def ofFields (year month day : UInt32) : Except Error Date :=
  if year.toNat ≤ 9999 ∧ (1 ≤ month.toNat ∧ month.toNat ≤ 12) ∧
      (1 ≤ day.toNat ∧ day.toNat ≤ 31) then
    .ok ⟨year, month, day⟩
  else
    .error (.invalidData s!"invalid date {year.toNat}-{month.toNat}-{day.toNat}")

/-- One numeric field of a literal. -/
def readField (text : List Char) : Except Error UInt32 :=
  match Text.unsignedWithin (UInt32.size - 1) text with
  | .ok n => .ok (UInt32.ofNat n)
  | .error fault => .error (.invalidData fault.message)

/-- Reads a literal: three fields of four, two and two bytes. -/
def parse (text : String) : Except Error Date :=
  let malformed :=
    Error.invalidData s!"invalid date literal '{text}', expected YYYY-MM-DD"
  match Text.fields '-' text.toList with
  | [y, m, d] =>
    if Text.utf8Length y = 4 ∧ Text.utf8Length m = 2 ∧ Text.utf8Length d = 2 then do
      let year ← readField y
      let month ← readField m
      let day ← readField d
      ofFields year month day
    else .error malformed
  | _ => .error malformed

/-- The number by which dates are ordered. -/
def ordinal (d : Date) : Nat :=
  d.year.toNat * 10000 + d.month.toNat * 100 + d.day.toNat

/-- The date as it is printed: at least four, two and two digits. -/
def text (d : Date) : String :=
  Text.padZeros 4 d.year.toNat ++ "-" ++ Text.padZeros 2 d.month.toNat ++ "-" ++
    Text.padZeros 2 d.day.toNat

end Date

end RelationalStore
