import Z80.Word

/-!
# Hexadecimal text

Upper-case hexadecimal: two digits for a byte, four for a word, and at least a given number of
digits for a natural number.
-/

namespace Z80.Hexadecimal

/-- The upper-case digit of a number below sixteen. -/
def digit (value : Fin 16) : Char :=
  if value < 10 then Char.ofNat (48 + value) else Char.ofNat (55 + value)

/-- The two digits of a byte. -/
def byteDigits (value : Byte) : List Char :=
  [digit (value.extractLsb' 4 4).toFin, digit (value.extractLsb' 0 4).toFin]

/-- A byte as two digits. -/
def byte (value : Byte) : String :=
  String.ofList (byteDigits value)

/-- A word as four digits. -/
def word (value : Word) : String :=
  String.ofList (byteDigits (highByte value) ++ byteDigits (lowByte value))

/-- Bytes as two digits each, separated by single spaces. -/
def bytes (values : List Byte) : String :=
  " ".intercalate (values.map byte)

/-- The digits of a number without leading zeros, most significant first; zero has none. -/
def significant (value : Nat) : List Char :=
  if value = 0 then []
  else significant (value / 16) ++ [digit (Fin.ofNat 16 value)]

/-- A number with leading zeros up to the given count of digits. -/
def atLeast (count value : Nat) : String :=
  let digits := significant value
  String.ofList (List.replicate (count - digits.length) '0' ++ digits)

end Z80.Hexadecimal
