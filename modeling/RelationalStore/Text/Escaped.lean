/-!
# Bytes as printable text

Bytes are shown between double quotes: printable ASCII as it is, quotes and the
escape character behind an escape character, tab, carriage return and line feed by
their letters, and every other byte by its two hexadecimal digits.
-/

namespace RelationalStore.Text

/-- A hexadecimal digit in lower case. -/
def hexDigit (n : Nat) : Char :=
  if n < 10 then Char.ofNat (48 + n) else Char.ofNat (87 + n)

/-- A byte by two hexadecimal digits. -/
def hexByte (b : UInt8) : List Char :=
  [hexDigit (b.toNat / 16), hexDigit (b.toNat % 16)]

/-- A byte as it is shown. -/
def escapedByte (b : UInt8) : List Char :=
  if b = 9 then ['\\', 't']
  else if b = 10 then ['\\', 'n']
  else if b = 13 then ['\\', 'r']
  else if b = 34 ∨ b = 39 ∨ b = 92 then ['\\', Char.ofNat b.toNat]
  else if 32 ≤ b ∧ b ≤ 126 then [Char.ofNat b.toNat]
  else '\\' :: 'x' :: hexByte b

/-- Bytes as they are shown. -/
def escapedBytes (bytes : List UInt8) : String :=
  "\"" ++ String.ofList (bytes.flatMap escapedByte) ++ "\""

end RelationalStore.Text
