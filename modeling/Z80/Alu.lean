import Z80.Arithmetic
import Z80.BitPosition
import Z80.Registers
import Z80.Shift

/-!
# Arithmetic on the register file

What the processor computes from the accumulator, the flags and one operand, as functions on the
register file. None of them changes a register besides the accumulator and the flags.
-/

namespace Z80

/-- An operation that changes one byte, in a register or in memory. -/
inductive Edit where
  | shift (op : Shift)
  | increment
  | decrement
  | set (position : BitPosition)
  | clear (position : BitPosition)
deriving DecidableEq, Inhabited

/-- The changed byte and the new flags. Setting and clearing a bit touches no flag, and counting
keeps the carry. -/
def Edit.apply (edit : Edit) (value : Byte) (flags : Flags) : Byte × Flags :=
  match edit with
  | .shift op =>
      let (result, out) := op.apply value flags.carry
      (result, { Flags.ofLogic result with carry := out })
  | .increment =>
      let outcome := sum value 1 false
      (outcome.value, { outcome.flags with carry := flags.carry })
  | .decrement =>
      let outcome := difference value 1 false
      (outcome.value, { outcome.flags with subtract := true, carry := flags.carry })
  | .set position => (BitPosition.setIn position value, flags)
  | .clear position => (BitPosition.clearIn position value, flags)

/-- An operation on the accumulator and the flags alone. -/
inductive AccumulatorOp where
  | rotate (op : Shift)
  | decimalAdjust
  | complement
  | negate
  | setCarry
  | complementCarry
deriving DecidableEq, Inhabited

namespace AccumulatorOp

/-- What a decimal adjustment adds or takes away: six in the low digit if that digit is past nine or
carried, and six in the high digit if the byte is past ninety-nine or carried. -/
def correction (a : Byte) (flags : Flags) : Byte :=
  (if flags.halfCarry || decide (9 < (a &&& 0x0F).toNat) then 0x06 else 0) |||
    (if flags.carry || decide (0x99 < a.toNat) then 0x60 else 0)

/-- The new accumulator and flags. -/
def apply (op : AccumulatorOp) (a : Byte) (flags : Flags) : Byte × Flags :=
  match op with
  | .rotate op =>
      let (result, out) := op.apply a flags.carry
      (result,
        { flags with halfCarry := false, subtract := false, carry := out }.copyXY result)
  | .decimalAdjust =>
      let result :=
        if flags.subtract then a - correction a flags else a + correction a flags
      (result,
        { Flags.ofLogic result with
          halfCarry := (a ^^^ result).getLsbD 4
          subtract := flags.subtract
          carry := flags.carry || decide (0x99 < a.toNat) })
  | .complement =>
      (~~~a, { flags with halfCarry := true, subtract := true }.copyXY (~~~a))
  | .negate => AluOp.subtract.apply 0 a flags
  | .setCarry =>
      (a, { flags with halfCarry := false, subtract := false, carry := true }.copyXY a)
  | .complementCarry =>
      (a,
        { flags with
          halfCarry := flags.carry
          subtract := false
          carry := !flags.carry }.copyXY a)

end AccumulatorOp

/-- The flags of a bit test. `source` is the byte whose bits 3 and 5 are copied. -/
def testFlags (position : BitPosition) (value source : Byte) (flags : Flags) : Flags :=
  let found := BitPosition.testIn position value
  { sign := position.val == 7 && found
    zero := !found
    halfCarry := true
    parity := !found
    carry := flags.carry : Flags }.copyXY source

namespace Registers

/-- Combines the accumulator with an operand. -/
def arithmetic (registers : Registers) (op : AluOp) (operand : Byte) : Registers :=
  let (a, flags) := op.apply registers.a operand registers.flags
  { registers with a, flags }

/-- Changes the accumulator. -/
def accumulate (registers : Registers) (op : AccumulatorOp) : Registers :=
  let (a, flags) := op.apply registers.a registers.flags
  { registers with a, flags }

/-- Changes a byte held elsewhere: the new byte, and the registers with the new flags. -/
def edit (registers : Registers) (edit : Edit) (value : Byte) : Byte × Registers :=
  let (result, flags) := edit.apply value registers.flags
  (result, { registers with flags })

/-- Changes the byte in a register. -/
def editRegister (registers : Registers) (edit : Edit) (register : ByteRegister) : Registers :=
  let (result, registers) := registers.edit edit (registers.getByte register)
  registers.setByte register result

/-- Tests a bit of a byte. -/
def testBit (registers : Registers) (position : BitPosition) (value source : Byte) : Registers :=
  { registers with flags := testFlags position value source registers.flags }

/-- Rotates digits between the accumulator and a byte: the new byte, and the registers with the new
accumulator. -/
def rotateDigit (registers : Registers) (rotation : DigitRotation) (value : Byte) :
    Byte × Registers :=
  let (a, result) := rotation.apply registers.a value
  (result, { registers with a, flags := { Flags.ofLogic a with carry := registers.flags.carry } })

/-- Combines two words: the resulting word, and the registers with the new flags. -/
def arithmeticWord (registers : Registers) (op : WordOp) (left right : Word) :
    Word × Registers :=
  let (result, flags) := op.apply left right registers.flags
  (result, { registers with flags })

end Registers

end Z80
