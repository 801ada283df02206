import Z80.BitPosition
import Z80.Page

/-!
# Errors

What a caller of this library can do wrong.
-/

namespace Z80

/-- A mistake in a request. -/
inductive Error where
  /-- Two instructions claim one opcode of a page. -/
  | opcodeTaken (page : Page) (opcode : Byte)
  /-- A byte has no bit at the given position. -/
  | bitOutOfRange (position : Byte)
deriving DecidableEq, Inhabited

/-- The error as a sentence. -/
def Error.message : Error → String
  | .opcodeTaken page opcode =>
      "Instruction 0x" ++ Hexadecimal.byte opcode ++ " registered twice in the " ++ page.name ++
        " table"
  | .bitOutOfRange position =>
      "Bit index " ++ toString position.toNat ++ " out of range (0-7)"

/-- The bit position that a number names, or the error that it names none. -/
def BitPosition.ofByte (value : Byte) : Except Error BitPosition :=
  match BitPosition.ofByte? value with
  | some position => .ok position
  | none => .error (.bitOutOfRange value)

end Z80
