/-!
# Floating point numbers as exact quantities

A finite number of double precision is a natural number times a power of two, with a
sign. Here such numbers are taken apart, and the number nearest to a quotient of
natural numbers is put together; of two that are equally near, the even one is taken.
-/

namespace RelationalStore

/-- A number of double precision: not a number, infinite, or `significand * 2 ^ exponent`. -/
inductive Double where
  | nan
  | infinite (negative : Bool)
  | finite (negative : Bool) (significand : Nat) (exponent : Int)
  deriving DecidableEq, Repr

namespace Double

/-- The least significand of a number that is not close to zero: 53 bits. -/
def leastNormal : Nat := 0x10000000000000

/-- The bit of the sign. -/
def signBit : Nat := 0x8000000000000000

/-- The number that 64 bits stand for. -/
def ofBits (bits : Nat) : Double :=
  let negative := decide (signBit ≤ bits)
  let exponent : Nat := bits / leastNormal % 2048
  let fraction : Nat := bits % leastNormal
  if exponent = 2047 then
    if fraction = 0 then infinite negative else nan
  else if exponent = 0 then finite negative fraction (-1074)
  else finite negative (leastNormal + fraction) ((exponent : Int) - 1075)

/-- The number that a float is. -/
def ofFloat (x : Float) : Double :=
  ofBits x.toBits.toNat

/-- A quotient rounded to the nearest natural number, halves to the even one. -/
def roundEven (num den : Nat) : Nat :=
  let quotient := num / den
  let twice := 2 * (num % den)
  if twice < den then quotient
  else if twice = den then quotient + quotient % 2
  else quotient + 1

/-- A natural number times a power of two, as a quotient. -/
def scale (n : Nat) (exponent : Int) : Nat × Nat :=
  if 0 ≤ exponent then (n * Nat.pow 2 exponent.toNat, 1) else (n, Nat.pow 2 (-exponent).toNat)

/-- The exponent of the greatest power of two that a positive quotient reaches. -/
def log2Quotient (num den : Nat) : Int :=
  let guess : Int := (num.log2 : Int) - (den.log2 : Int)
  let (n, d) := scale den guess
  if num * d < n then guess - 1 else guess

/-- The bits of the number without sign that is nearest to a quotient. -/
def nearestBits (num den : Nat) : Nat :=
  if num = 0 then 0
  else
    let exponent := max (-1074) (log2Quotient num den - 52)
    let (n, d) := scale den exponent
    let significand := roundEven (num * d) n
    min ((exponent + 1074).toNat * leastNormal + significand) (2047 * leastNormal)

/-- The float that is nearest to a quotient with a sign. -/
def nearest (negative : Bool) (num den : Nat) : Float :=
  let bits := nearestBits num den
  Float.ofBits (UInt64.ofNat (if negative then signBit + bits else bits))

/-- The infinite float of a sign. -/
def infinity (negative : Bool) : Float :=
  nearest negative (Nat.pow 2 1024) 1

/-- The float nearest to a decimal number `digits * 10 ^ exponent`. Numbers beyond
all floats become infinite, and numbers below half of the least one become zero. -/
def ofDecimal (negative : Bool) (digits : Nat) (exponent : Int) : Float :=
  let magnitude := (digits.log2 : Int) * 3 / 10 + exponent
  if digits = 0 ∨ magnitude < -400 then nearest negative 0 1
  else if 400 < magnitude then infinity negative
  else if 0 ≤ exponent then nearest negative (digits * Nat.pow 10 exponent.toNat) 1
  else nearest negative digits (Nat.pow 10 (-exponent).toNat)

/-- The float nearest to an integer. -/
def ofInt (n : Int) : Float :=
  nearest (n < 0) n.natAbs 1

end Double

end RelationalStore
