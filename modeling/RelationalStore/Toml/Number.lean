import RelationalStore.Decimal.Reading
import RelationalStore.Toml.Basic
import RelationalStore.Toml.Quoted

/-!
# Numbers in TOML

An underscore stands between two digits. A decimal number has no zero in front of its
other digits; whole numbers in other bases are written without a sign. What is written
like a number need not have a value: a base may lack its digits, and a number may
exceed its range.
-/

namespace RelationalStore.Toml

/-- Whether a character is a digit of a base up to sixteen. -/
def isDigitOf (base : Nat) (c : Char) : Bool :=
  (hexValue? c).any (· < base)

/-- Whether a character is a decimal digit. -/
def isDigit (c : Char) : Bool :=
  (Text.digit? c).isSome

/-- What follows a character without its underscores, each of which has to stand
between two digits. The flag tells whether that character is a digit. -/
def joinedAfter? (isDigit : Char → Bool) (afterDigit : Bool) : List Char → Option (List Char)
  | [] => some []
  | '_' :: c :: rest =>
    if afterDigit && isDigit c then (joinedAfter? isDigit true rest).map (c :: ·) else none
  | c :: rest => if c = '_' then none else (joinedAfter? isDigit (isDigit c) rest).map (c :: ·)

/-- A text without its underscores, each of which has to stand between two digits. -/
def joined? (isDigit : Char → Bool) (chars : List Char) : Option (List Char) :=
  joinedAfter? isDigit false chars

/-- The number that digits of a base stand for. -/
def natural (base : Nat) (digits : List Char) : Nat :=
  digits.foldl (fun n c => base * n + (hexValue? c).getD 0) 0

/-- A whole number as a value; 128 bits have to hold it, with or without a sign. -/
def ofWhole (n : Int) : Toml :=
  if -0x80000000000000000000000000000000 ≤ n ∧ n < 0x100000000000000000000000000000000 then
    .integer n
  else .valueless

/-- Reads a whole number of a base behind the mark of the base. -/
def based? (base : Nat) (chars : List Char) : Option Toml := do
  let digits ← joined? (isDigitOf base) chars
  if digits.isEmpty then return .valueless
  else if digits.all (isDigitOf base) then return ofWhole (natural base digits)
  else none

/-- Whether a zero stands in front of other digits: the text starts with it, and the
whole number in it has several digits. -/
def isPadded (chars digits : List Char) : Bool :=
  chars.head? = some '0' && 1 < digits.length

/-- Reads a decimal whole number without its sign. Where underscores are among its
digits, other characters may be as well, and then it has no value. -/
def decimal? (negative : Bool) (chars : List Char) : Option Toml := do
  let digits ← joined? (isDigitOf 16) chars
  if isPadded chars digits then none
  else if digits.all isDigit then
    let n : Nat := Double.ofDigits digits
    return ofWhole (if negative then -(n : Int) else n)
  else return .valueless

/-- Reads the places behind the point, if there is one. -/
def places? : List Char → Option (Option (List Char) × List Char)
  | '.' :: rest =>
    let (digits, rest) := Double.spanDigits rest
    if digits.isEmpty then none else some (some digits, rest)
  | chars => some (none, chars)

/-- Reads an exponent up to the end, if there is one. -/
def exponent? : List Char → Option (Option Int)
  | [] => some none
  | c :: rest =>
    if c = 'e' ∨ c = 'E' then
      let (negative, digits) := Double.readSign rest
      if digits.isEmpty || !digits.all isDigit then none
      else
        let n : Nat := Double.ofDigits digits
        some (some (if negative then -(n : Int) else n))
    else none

/-- A number of floating point as a value, which has to be finite. -/
def ofFinite (x : Float) : Toml :=
  match Double.ofFloat x with
  | .finite .. => .float x
  | _ => .valueless

/-- Reads a decimal number with places, an exponent or both, without its sign. -/
def fractional? (negative : Bool) (chars : List Char) : Option Toml := do
  let (whole, rest) := Double.spanDigits (← joined? isDigit chars)
  let (places, rest) ← places? rest
  let exponent ← exponent? rest
  if whole.isEmpty || isPadded chars whole then none
  else
    let fraction := places.getD []
    return ofFinite (Double.ofDecimal negative (Double.ofDigits (whole ++ fraction))
      (exponent.getD 0 - fraction.length))

/-- Whether a character makes a decimal number one that is not whole. -/
def isFractional (c : Char) : Bool :=
  c = '.' || c = 'e' || c = 'E'

/-- Reads a decimal number, or one of the words for numbers that are not finite. -/
def signed? (chars : List Char) : Option Toml :=
  let (negative, body) := Double.readSign chars
  let rest := body.dropWhile isDigit
  if body = ['i', 'n', 'f'] ∨ body = ['n', 'a', 'n'] then (Double.read? chars).map .float
  else if rest.head? = some '-' ∨ rest.head? = some ':' then none
  else if rest.any isFractional then fractional? negative body
  else if body.isEmpty then none
  else if rest.isEmpty ∨ rest.head? = some '_' then decimal? negative body
  else none

/-- Reads a number. -/
def number? : List Char → Option Toml
  | '0' :: 'x' :: digits => based? 16 digits
  | '0' :: 'o' :: digits => based? 8 digits
  | '0' :: 'b' :: digits => based? 2 digits
  | chars => signed? chars

end RelationalStore.Toml
