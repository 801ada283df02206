import Z80.Word

/-!
# The flag register

The eight flags in the low byte of `AF`. Bits 3 and 5 are the undocumented `x` and `y`, which copy
bits of a result or of an operand. `toByte` and `ofByte` are inverse to each other.
-/

namespace Z80

/-- The flags, from bit 7 down to bit 0. `parity` also reports signed overflow, and `subtract`
tells a decimal adjustment which operation came last. -/
structure Flags where
  sign : Bool := false
  zero : Bool := false
  y : Bool := false
  halfCarry : Bool := false
  x : Bool := false
  parity : Bool := false
  subtract : Bool := false
  carry : Bool := false
deriving DecidableEq, Inhabited

/-- True when a byte has an even number of set bits. -/
def evenParity (value : Byte) : Bool :=
  !((List.range 8).foldl (fun odd position => odd ^^ value.getLsbD position) false)

namespace Flags

/-- The flags as they stand in the low byte of `AF`. -/
def toByte (flags : Flags) : Byte :=
  BitVec.ofBoolListBE [flags.sign, flags.zero, flags.y, flags.halfCarry,
    flags.x, flags.parity, flags.subtract, flags.carry]

/-- The flags that a byte spells. -/
def ofByte (value : Byte) : Flags where
  sign := value.getLsbD 7
  zero := value.getLsbD 6
  y := value.getLsbD 5
  halfCarry := value.getLsbD 4
  x := value.getLsbD 3
  parity := value.getLsbD 2
  subtract := value.getLsbD 1
  carry := value.getLsbD 0

@[simp] theorem ofByte_toByte (flags : Flags) : ofByte flags.toByte = flags := by
  rcases flags with ⟨_ | _, _ | _, _ | _, _ | _, _ | _, _ | _, _ | _, _ | _⟩ <;> rfl

@[simp] theorem toByte_ofByte (value : Byte) : (ofByte value).toByte = value := by
  revert value
  decide

/-- Copies bits 3 and 5 of `source` into `x` and `y`. -/
def copyXY (flags : Flags) (source : Byte) : Flags :=
  { flags with x := source.getLsbD 3, y := source.getLsbD 5 }

/-- Sign, zero and the two copied bits of a result; every other flag is clear. -/
def ofResult (value : Byte) : Flags where
  sign := value.msb
  zero := value == 0
  y := value.getLsbD 5
  x := value.getLsbD 3

/-- The flags of a logical result: those of `ofResult` and even parity. -/
def ofLogic (value : Byte) : Flags :=
  { ofResult value with parity := evenParity value }

end Flags

end Z80
