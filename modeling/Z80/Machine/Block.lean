import Z80.Instruction
import Z80.Machine.Basic

/-!
# Block instructions

One round of a block instruction handles one byte and tells whether the repeating form goes on. A
repeating form goes on by moving the program counter back onto itself, so that interrupts are served
between rounds.
-/

namespace Z80

/-- The flags of a block transfer. The undocumented bits are bits 3 and 1 of the byte moved plus the
accumulator. -/
def blockLoadFlags (flags : Flags) (a value : Byte) (more : Bool) : Flags :=
  { sign := flags.sign
    zero := flags.zero
    y := (value + a).getLsbD 1
    x := (value + a).getLsbD 3
    parity := more
    carry := flags.carry }

/-- The flags of a block search. The undocumented bits are bits 3 and 1 of the difference less the
half carry. -/
def blockCompareFlags (flags : Flags) (a value : Byte) (more : Bool) : Flags :=
  let result := a - value
  let half := halfCarry a value result
  let copied := result - unitByte half
  { sign := result.msb
    zero := result == 0
    y := copied.getLsbD 1
    halfCarry := half
    x := copied.getLsbD 3
    parity := more
    subtract := true
    carry := flags.carry }

/-- The flags of a block transfer to or from a device: `counter` is `B` after the count, and
`addend` is the byte that the transferred one is added to. -/
def blockDeviceFlags (counter value addend : Byte) : Flags :=
  let total := sum value addend false
  { Flags.ofResult counter with
    halfCarry := total.carry
    parity := evenParity ((total.value &&& 7) ^^^ counter)
    subtract := value.msb
    carry := total.carry }

namespace Registers

/-- Moves `HL` one step. -/
def stepSource (registers : Registers) (direction : Direction) : Registers :=
  { registers with hl := direction.step registers.hl }

/-- Moves `DE` one step. -/
def stepTarget (registers : Registers) (direction : Direction) : Registers :=
  { registers with de := direction.step registers.de }

/-- Takes one from `BC`. -/
def countWord (registers : Registers) : Registers :=
  { registers with bc := registers.bc - 1 }

/-- Takes one from `B`. -/
def countByte (registers : Registers) : Registers :=
  registers.setByte .b (registers.getByte .b - 1)

end Registers

namespace Machine

/-- Copies the byte at `HL` to `DE`. There is more to do while `BC` is not zero. -/
def blockLoad (machine : Machine) (direction : Direction) : Bool × Machine :=
  let value := machine.read machine.registers.hl
  let machine := machine.write machine.registers.de value
  let machine := machine.update fun registers =>
    ((registers.stepSource direction).stepTarget direction).countWord
  let more := machine.registers.bc != 0
  (more, machine.update fun registers =>
    { registers with flags := blockLoadFlags registers.flags registers.a value more })

/-- Compares the accumulator with the byte at `HL`. There is more to do while `BC` is not zero and
the bytes differ. -/
def blockCompare (machine : Machine) (direction : Direction) : Bool × Machine :=
  let value := machine.read machine.registers.hl
  let machine := machine.update fun registers => (registers.stepSource direction).countWord
  let more := machine.registers.bc != 0
  (more && machine.registers.a != value, machine.update fun registers =>
    { registers with flags := blockCompareFlags registers.flags registers.a value more })

/-- Receives a byte from the device in `BC` and writes it at `HL`. There is more to do while `B` is
not zero. -/
def blockInput (machine : Machine) (direction : Direction) : Bool × Machine :=
  let (value, machine) := machine.receive machine.registers.bc
  let machine := machine.write machine.registers.hl value
  let machine := machine.update fun registers => (registers.countByte).stepSource direction
  let counter := machine.registers.getByte .b
  let addend := direction.step (machine.registers.getByte .c)
  (counter != 0, machine.update fun registers =>
    { registers with flags := blockDeviceFlags counter value addend })

/-- Sends the byte at `HL` to the device in `BC`, after counting. There is more to do while `B` is
not zero. -/
def blockOutput (machine : Machine) (direction : Direction) : Bool × Machine :=
  let value := machine.read machine.registers.hl
  let machine := machine.update Registers.countByte
  let machine := machine.send machine.registers.bc value
  let machine := machine.update (·.stepSource direction)
  let counter := machine.registers.getByte .b
  (counter != 0, machine.update fun registers =>
    { registers with flags := blockDeviceFlags counter value (registers.getByte .l) })

/-- One round of a block instruction. -/
def blockRound (machine : Machine) (op : BlockOp) (direction : Direction) : Bool × Machine :=
  match op with
  | .load => machine.blockLoad direction
  | .compare => machine.blockCompare direction
  | .input => machine.blockInput direction
  | .output => machine.blockOutput direction

/-- One round of a repeating block instruction: while there is more to do the program counter moves
back over the two bytes of the opcode. -/
def blockRepeat (machine : Machine) (op : BlockOp) (direction : Direction) : Machine :=
  let (more, machine) := machine.blockRound op direction
  let machine := if more then machine.jump (machine.registers.pc - 2) else machine
  machine.spendBranch .block more

end Machine

end Z80
