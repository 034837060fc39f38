import RelationalStore.Decimal.Double
import RelationalStore.Text.Integer

/-!
# Reading decimal numbers

A number is a sign, digits with a point among them, and an exponent, all but one
digit being optional; infinity and the number that is none are written in words.
-/

namespace RelationalStore

namespace Double

/-- The digits at the start of a text and what follows them. -/
def spanDigits (text : List Char) : List Char × List Char :=
  text.span fun c => (Text.digit? c).isSome

/-- The number that digits stand for. -/
def ofDigits (digits : List Char) : Nat :=
  digits.foldl (fun n c => 10 * n + (Text.digit? c).getD 0) 0

/-- A sign at the start of a text, and what follows it. -/
def readSign : List Char → Bool × List Char
  | '-' :: rest => (true, rest)
  | '+' :: rest => (false, rest)
  | text => (false, text)

/-- Reads an exponent up to the end of the text; no exponent is zero. -/
def readExponent? : List Char → Option Int
  | [] => some 0
  | c :: rest =>
    if c = 'e' ∨ c = 'E' then
      let (negative, rest) := readSign rest
      let (digits, rest) := spanDigits rest
      if digits.isEmpty || !rest.isEmpty then none
      else some (if negative then -(ofDigits digits : Int) else ofDigits digits)
    else none

/-- Reads a number without a sign and without words. -/
def readUnsigned? (negative : Bool) (text : List Char) : Option Float := do
  let (whole, rest) := spanDigits text
  let (fraction, rest) :=
    match rest with
    | '.' :: rest => spanDigits rest
    | _ => ([], rest)
  if whole.isEmpty && fraction.isEmpty then none
  else
    let exponent ← readExponent? rest
    return ofDecimal negative (ofDigits (whole ++ fraction)) (exponent - fraction.length)

/-- Reads a number; the case of the words does not matter. -/
def read? (text : List Char) : Option Float :=
  let (negative, rest) := readSign text
  let word := String.ofList (rest.map Char.toLower)
  if word = "inf" ∨ word = "infinity" then some (infinity negative)
  else if word = "nan" then some (Float.ofBits 0x7FF8000000000000)
  else readUnsigned? negative rest

end Double

end RelationalStore
