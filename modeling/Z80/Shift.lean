import Z80.Flags

/-!
# Rotations and shifts

A shift moves a byte by one place: one bit leaves at one end and becomes the carry, and another
enters at the other end. The eight operations differ in the direction and in the entering bit.
A digit rotation moves a byte by four places through the low digit of the accumulator.
-/

namespace Z80

/-- The rotations and shifts by one place. `shiftLeftOne` is the undocumented shift that brings in
a set bit. -/
inductive Shift where
  | rotateLeftCircular
  | rotateRightCircular
  | rotateLeft
  | rotateRight
  | shiftLeft
  | shiftRightSigned
  | shiftLeftOne
  | shiftRight
deriving DecidableEq, Inhabited

namespace Shift

/-- The operation that a three-bit opcode field selects. -/
def ofField : Fin 8 → Shift
  | 0 => .rotateLeftCircular
  | 1 => .rotateRightCircular
  | 2 => .rotateLeft
  | 3 => .rotateRight
  | 4 => .shiftLeft
  | 5 => .shiftRightSigned
  | 6 => .shiftLeftOne
  | 7 => .shiftRight

/-- The operation as an assembler writes it. -/
def mnemonic : Shift → String
  | .rotateLeftCircular => "RLC"
  | .rotateRightCircular => "RRC"
  | .rotateLeft => "RL"
  | .rotateRight => "RR"
  | .shiftLeft => "SLA"
  | .shiftRightSigned => "SRA"
  | .shiftLeftOne => "SLL"
  | .shiftRight => "SRL"

/-- Moves a byte one place left and brings in a bit at the bottom; also the bit that left. -/
def left (value : Byte) (entering : Bool) : Byte × Bool :=
  ((value <<< 1) ||| unitByte entering, value.msb)

/-- Moves a byte one place right and brings in a bit at the top; also the bit that left. -/
def right (value : Byte) (entering : Bool) : Byte × Bool :=
  ((value >>> 1) ||| (unitByte entering <<< 7), value.getLsbD 0)

/-- The shifted byte and the bit shifted out, given the carry before. -/
def apply (op : Shift) (value : Byte) (carry : Bool) : Byte × Bool :=
  match op with
  | .rotateLeftCircular => left value value.msb
  | .rotateRightCircular => right value (value.getLsbD 0)
  | .rotateLeft => left value carry
  | .rotateRight => right value carry
  | .shiftLeft => left value false
  | .shiftRightSigned => right value value.msb
  | .shiftLeftOne => left value true
  | .shiftRight => right value false

end Shift

/-- The direction in which hexadecimal digits move through a byte. -/
inductive DigitRotation where
  | left
  | right
deriving DecidableEq, Inhabited

/-- The new accumulator and byte. The low digit of the accumulator enters the byte at one end, and
the digit that leaves at the other end replaces it. -/
def DigitRotation.apply (rotation : DigitRotation) (a value : Byte) : Byte × Byte :=
  match rotation with
  | .left => ((a &&& 0xF0) ||| (value >>> 4), (value <<< 4) ||| (a &&& 0x0F))
  | .right => ((a &&& 0xF0) ||| (value &&& 0x0F), (value >>> 4) ||| ((a &&& 0x0F) <<< 4))

end Z80
