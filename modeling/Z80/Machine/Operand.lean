import Z80.Alu
import Z80.Machine.Basic
import Z80.Opcode

/-!
# Operands

An operand is located once, which reads its displacement if it has one. The place found can then be
read and written.
-/

namespace Z80

/-- A place that holds one byte. -/
inductive Place where
  | reg (register : ByteRegister)
  | cell (address : Word)
deriving DecidableEq, Inhabited

/-- The byte whose bits 3 and 5 a bit test copies: the tested byte of a register, and the high byte
of the address of a cell. -/
def Place.copiedByte (place : Place) (value : Byte) : Byte :=
  match place with
  | .reg _ => value
  | .cell address => highByte address

namespace Machine

/-- The place of an operand. -/
def locate (machine : Machine) : Operand → Place × Machine
  | .reg register => (.reg register, machine)
  | .indirect => (.cell machine.registers.hl, machine)
  | .displaced index =>
      let (displacement, machine) := machine.fetchOperand
      (.cell (Z80.displaced (machine.registers.index index) displacement), machine)
  | .offset index displacement =>
      (.cell (Z80.displaced (machine.registers.index index) displacement), machine)

/-- The byte at a place. -/
def get (machine : Machine) : Place → Byte
  | .reg register => machine.registers.getByte register
  | .cell address => machine.read address

/-- Puts a byte at a place. -/
def put (machine : Machine) (place : Place) (value : Byte) : Machine :=
  match place with
  | .reg register => machine.update (·.setByte register value)
  | .cell address => machine.write address value

/-- Changes the byte at a place: the byte written, and the machine after it. -/
def edit (machine : Machine) (edit : Edit) (place : Place) : Byte × Machine :=
  let (result, registers) := machine.registers.edit edit (machine.get place)
  (result, { machine with registers }.put place result)

end Machine

end Z80
