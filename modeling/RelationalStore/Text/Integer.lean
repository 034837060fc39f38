/-!
# Decimal integers in text

Digits are ASCII. A reading fails for a cause: there is nothing to read, a
character is no digit, or the number exceeds its bound. A cause is reported at the
first character that shows it.
-/

namespace RelationalStore.Text

/-- Why a text is no integer within the bound. -/
inductive IntegerFault where
  | empty
  | invalidDigit
  | tooLarge
  deriving DecidableEq, Repr

/-- The message for a text that is no integer. -/
def IntegerFault.message : IntegerFault → String
  | empty => "cannot parse integer from empty string"
  | invalidDigit => "invalid digit found in string"
  | tooLarge => "number too large to fit in target type"

/-- The value of an ASCII decimal digit. -/
def digit? (c : Char) : Option Nat :=
  if '0' ≤ c ∧ c ≤ '9' then some (c.toNat - '0'.toNat) else none

/-- Reads digits into the number begun by `value`, which may not exceed `bound`. -/
def digitsWithin (bound : Nat) : Nat → List Char → Except IntegerFault Nat
  | value, [] => .ok value
  | value, c :: rest =>
    match digit? c with
    | none => .error .invalidDigit
    | some d =>
      if 10 * value + d ≤ bound then digitsWithin bound (10 * value + d) rest
      else .error .tooLarge

/-- Reads an unsigned integer of at most `bound`: digits, after an optional plus sign. -/
def unsignedWithin (bound : Nat) (text : List Char) : Except IntegerFault Nat :=
  match text with
  | [] => .error .empty
  | ['+'] => .error .invalidDigit
  | '+' :: digits => digitsWithin bound 0 digits
  | digits => digitsWithin bound 0 digits

/-- The decimal digits of a number, with zeros in front up to the given width. -/
def padZeros (width : Nat) (n : Nat) : String :=
  let digits := toString n
  String.ofList (List.replicate (width - digits.length) '0') ++ digits

end RelationalStore.Text
