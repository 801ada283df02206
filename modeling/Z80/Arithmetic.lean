import Z80.Flags

/-!
# Sums and differences with a carry

`sum` and `difference` are the binary arithmetic of both widths. Each yields the word that fits
and the three conditions that the flag register reports: the carry out of the top bit, the carry
into the top hexadecimal digit, and the overflow of the two's-complement reading.
-/

namespace Z80

/-- The result of an addition or subtraction of a given width. -/
structure Outcome (width : Nat) where
  value : BitVec width
  carry : Bool
  halfCarry : Bool
  overflow : Bool
deriving DecidableEq

/-- The carry or borrow into the top hexadecimal digit, seen from the operands and the result. -/
def halfCarry {width : Nat} (left right result : BitVec width) : Bool :=
  (left ^^^ right ^^^ result).getLsbD (width - 4)

/-- A sum overflows when both operands have one sign and the result has the other. -/
def addOverflow {width : Nat} (left right result : BitVec width) : Bool :=
  left.msb == right.msb && left.msb != result.msb

/-- A difference overflows when the operands differ in sign and the result has the sign of the
operand taken away. -/
def subtractOverflow {width : Nat} (left right result : BitVec width) : Bool :=
  left.msb != right.msb && left.msb != result.msb

/-- The sum of two words and a carry. -/
def sum {width : Nat} (left right : BitVec width) (carry : Bool) : Outcome width :=
  let result := left + right + (BitVec.ofBool carry).setWidth width
  { value := result
    carry := BitVec.carry width left right carry
    halfCarry := halfCarry left right result
    overflow := addOverflow left right result }

/-- The difference of two words and a borrow. -/
def difference {width : Nat} (left right : BitVec width) (borrow : Bool) : Outcome width :=
  let result := left - right - (BitVec.ofBool borrow).setWidth width
  { value := result
    carry := decide (left.toNat < right.toNat + borrow.toNat)
    halfCarry := halfCarry left right result
    overflow := subtractOverflow left right result }

/-- The flags of an eight-bit outcome. -/
def Outcome.flags (outcome : Outcome 8) : Flags :=
  { Flags.ofResult outcome.value with
    halfCarry := outcome.halfCarry
    parity := outcome.overflow
    carry := outcome.carry }

/-- The flags of a sixteen-bit outcome: sign and copied bits come from the high byte, and zero from
the whole word. -/
def Outcome.wordFlags (outcome : Outcome 16) : Flags :=
  { Flags.ofResult (highByte outcome.value) with
    zero := outcome.value == 0
    halfCarry := outcome.halfCarry
    parity := outcome.overflow
    carry := outcome.carry }

/-- The operations that set a register pair to a sum or difference. -/
inductive WordOp where
  | add
  | addCarry
  | subtractCarry
deriving DecidableEq, Inhabited

/-- The resulting word and flags. Plain addition leaves sign, zero and parity as they were. -/
def WordOp.apply (op : WordOp) (left right : Word) (flags : Flags) : Word × Flags :=
  match op with
  | .add =>
      let outcome := sum left right false
      (outcome.value,
        { flags with
          halfCarry := outcome.halfCarry
          subtract := false
          carry := outcome.carry }.copyXY (highByte outcome.value))
  | .addCarry =>
      let outcome := sum left right flags.carry
      (outcome.value, outcome.wordFlags)
  | .subtractCarry =>
      let outcome := difference left right flags.carry
      (outcome.value, { outcome.wordFlags with subtract := true })

/-- The eight operations between the accumulator and an operand. -/
inductive AluOp where
  | add
  | addCarry
  | subtract
  | subtractCarry
  | and
  | xor
  | or
  | compare
deriving DecidableEq, Inhabited

namespace AluOp

/-- The operation that a three-bit opcode field selects. -/
def ofField : Fin 8 → AluOp
  | 0 => .add
  | 1 => .addCarry
  | 2 => .subtract
  | 3 => .subtractCarry
  | 4 => .and
  | 5 => .xor
  | 6 => .or
  | 7 => .compare

/-- The flags of an eight-bit subtraction. -/
private def differenceFlags (outcome : Outcome 8) : Flags :=
  { outcome.flags with subtract := true }

/-- The new accumulator and flags. A comparison keeps the accumulator and copies bits 3 and 5 of the
operand. -/
def apply (op : AluOp) (a operand : Byte) (flags : Flags) : Byte × Flags :=
  match op with
  | .add =>
      let outcome := sum a operand false
      (outcome.value, outcome.flags)
  | .addCarry =>
      let outcome := sum a operand flags.carry
      (outcome.value, outcome.flags)
  | .subtract =>
      let outcome := difference a operand false
      (outcome.value, differenceFlags outcome)
  | .subtractCarry =>
      let outcome := difference a operand flags.carry
      (outcome.value, differenceFlags outcome)
  | .and => (a &&& operand, { Flags.ofLogic (a &&& operand) with halfCarry := true })
  | .xor => (a ^^^ operand, Flags.ofLogic (a ^^^ operand))
  | .or => (a ||| operand, Flags.ofLogic (a ||| operand))
  | .compare => (a, (differenceFlags (difference a operand false)).copyXY operand)

/-- The operation as an assembler writes it in front of its operand. -/
def mnemonic : AluOp → String
  | .add => "ADD A,"
  | .addCarry => "ADC A,"
  | .subtract => "SUB "
  | .subtractCarry => "SBC A,"
  | .and => "AND "
  | .xor => "XOR "
  | .or => "OR "
  | .compare => "CP "

end AluOp

end Z80
