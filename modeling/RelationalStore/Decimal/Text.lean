import RelationalStore.Decimal.Double

/-!
# Floating point numbers in decimal

The shortest text of a number has the fewest digits that still stand for it and no
other number, and of these the nearest to it, the one farther from zero where two are
equally near. The text with a fixed number of places is rounded from the exact number.
Neither uses an exponent.
-/

namespace RelationalStore

namespace Double

/-- Whether a positive quotient rounds to the number `significand * 2 ^ exponent`:
it is nearer to it than to its neighbours, or half way and the significand is even. -/
def standsFor (significand : Nat) (exponent : Int) (num den : Nat) : Bool :=
  -- The distance to the neighbour below is half as large at a power of two.
  let below := if significand = leastNormal ∧ exponent ≠ -1074 then 1 else 2
  let (lowNum, lowDen) := scale (4 * significand - below) (exponent - 2)
  let (highNum, highDen) := scale (4 * significand + 2) (exponent - 2)
  if significand % 2 = 0 then
    lowNum * den ≤ num * lowDen && num * highDen ≤ highNum * den
  else lowNum * den < num * lowDen && num * highDen < highNum * den

/-- The multiple of `10 ^ grid` that stands for a positive number, if there is one:
of its two neighbours on the grid the nearer, the upper one where both are. -/
def onGrid? (significand : Nat) (exponent grid : Int) : Option Nat :=
  let (num, den) := scale significand exponent
  let unitNum := if 0 ≤ grid then Nat.pow 10 grid.toNat else 1
  let unitDen := if 0 ≤ grid then 1 else Nat.pow 10 (-grid).toNat
  let steps := num * unitDen / (den * unitNum)
  let stands (n : Nat) : Bool := standsFor significand exponent (n * unitNum) unitDen
  let nearDown := 2 * (num * unitDen % (den * unitNum)) < den * unitNum
  if stands steps && (nearDown || !stands (steps + 1)) then some steps
  else if stands (steps + 1) then some (steps + 1)
  else none

/-- The first hit on the grids that follow one another from a coarse one down. -/
def firstOnGrid (significand : Nat) (exponent : Int) : Nat → Int → Nat × Int
  | 0, grid => (0, grid)
  | count + 1, grid =>
    match onGrid? significand exponent grid with
    | some n => (n, grid)
    | none => firstOnGrid significand exponent count (grid - 1)

/-- The shortest decimal `n * 10 ^ grid` that stands for a positive number. -/
def shortest (significand : Nat) (exponent : Int) : Nat × Int :=
  firstOnGrid significand exponent 700 310

/-- The decimal `n * 10 ^ grid` in positional notation. -/
def positional (n : Nat) (grid : Int) : String :=
  if 0 ≤ grid then toString n ++ String.ofList (List.replicate grid.toNat '0')
  else
    let places := (-grid).toNat
    let digits := (toString n).toList
    let padded := List.replicate (places + 1 - digits.length) '0' ++ digits
    let whole := padded.length - places
    String.ofList (padded.take whole ++ '.' :: padded.drop whole)

/-- The sign in front of a number. -/
def signText (negative : Bool) : String :=
  if negative then "-" else ""

/-- The shortest text of a number. -/
def text : Double → String
  | nan => "NaN"
  | infinite negative => signText negative ++ "inf"
  | finite negative 0 _ => signText negative ++ "0"
  | finite negative significand exponent =>
    let (n, grid) := shortest significand exponent
    signText negative ++ positional n grid

/-- The text of a number with a fixed number of places, halves rounded to even. -/
def fixedText (places : Nat) : Double → String
  | nan => "NaN"
  | infinite negative => signText negative ++ "inf"
  | finite negative significand exponent =>
    let (num, den) := scale significand exponent
    let n := roundEven (num * Nat.pow 10 places) den
    signText negative ++ (if places = 0 then toString n else positional n (-(places : Int)))

end Double

end RelationalStore
