import RelationalStore.Text.Unprintable

/-!
# Quoted text

A text is quoted between double quotes. Double quotes and the escape character stand
behind an escape character, the common controls are letters behind one, and what does
not show stands as its hexadecimal number.
-/

namespace RelationalStore.Text

/-- A character by its hexadecimal number. -/
def numbered (c : Char) : List Char :=
  ['\\', 'u', '\x7b'] ++ Nat.toDigits 16 c.toNat ++ ['\x7d']

/-- A character as it is quoted. -/
def quotedChar (c : Char) : List Char :=
  if c.toNat = 0 then ['\\', '0']
  else if c = '\t' then ['\\', 't']
  else if c = '\r' then ['\\', 'r']
  else if c = '\n' then ['\\', 'n']
  else if c.toNat = 34 ∨ c.toNat = 92 then ['\\', c]
  else if isHidden c then numbered c
  else [c]

/-- A text as it is quoted. -/
def quoted (text : String) : String :=
  "\"" ++ String.ofList (text.toList.flatMap quotedChar) ++ "\""

end RelationalStore.Text
