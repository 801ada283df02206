import Z80.Cpu
import Z80.Devices
import Z80.Event
import Z80.Memory
import Z80.Window

/-!
# The machine

A processor together with its memory and its devices. Every write to memory, every exchange with a
device and everything that the machine reports is appended to its log, so that the log of a run is
the run as seen from outside. Nothing in the machine reads the log.
-/

namespace Z80

/-- A processor, its surroundings and the log of what it did. -/
structure Machine extends Cpu where
  memory : Memory := .blank
  window : Window := {}
  devices : Devices := {}
  log : Array Event := #[]
deriving DecidableEq, Inhabited

namespace Machine

/-- Appends an event to the log. -/
def emit (machine : Machine) (event : Event) : Machine :=
  { machine with log := machine.log.push event }

/-- Appends a fault to the log, if there is one. -/
def report (machine : Machine) : Option Fault → Machine
  | none => machine
  | some fault => machine.emit (.fault fault)

/-- Changes the registers. -/
def update (machine : Machine) (change : Registers → Registers) : Machine :=
  { machine with registers := change machine.registers }

/-- Adds to both cycle counters. -/
def spend (machine : Machine) (count : BitVec 32) : Machine :=
  { machine with cycles := machine.cycles.spend count }

/-- Adds one of two costs to both cycle counters. -/
def spendBranch (machine : Machine) (cost : BranchCost) (taken : Bool) : Machine :=
  machine.spend (cost.choose taken)

/-- Goes on at an address. -/
def jump (machine : Machine) (address : Word) : Machine :=
  machine.update fun registers => { registers with pc := address }

/-- Goes on at a distance from the program counter. -/
def jumpRelative (machine : Machine) (offset : Byte) : Machine :=
  machine.jump (machine.registers.pc + branchDistance offset)

/-- Puts the processor into its reset state; memory, devices and log stay. -/
def reset (machine : Machine) (sp : Word) : Machine :=
  { machine with toCpu := .initial sp }

/-! ## Memory and devices -/

/-- The byte at an address. -/
def read (machine : Machine) (address : Word) : Byte :=
  machine.memory.read address

/-- Writes a byte to memory. -/
def write (machine : Machine) (address : Word) (value : Byte) : Machine :=
  { machine with memory := machine.memory.write address value }.emit (.memoryWrite address value)

/-- The word at an address, low byte first. -/
def readWord (machine : Machine) (address : Word) : Word :=
  machine.memory.readWord address

/-- Writes a word to memory, low byte first. -/
def writeWord (machine : Machine) (address : Word) (value : Word) : Machine :=
  (machine.write address (lowByte value)).write (address + 1) (highByte value)

/-- The next byte from a device. -/
def receive (machine : Machine) (device : Word) : Byte × Machine :=
  let (value, devices) := machine.devices.take
  (value, { machine with devices }.emit (.received device value))

/-- Sends a byte to a device. -/
def send (machine : Machine) (device : Word) (value : Byte) : Machine :=
  machine.emit (.sent device value)

/-- Changes the interrupt request lines. -/
def updateLines (machine : Machine) (change : Lines → Lines) : Machine :=
  { machine with devices := { machine.devices with lines := change machine.devices.lines } }

/-- Changes the interrupt flip-flops and mode. -/
def updateInterrupts (machine : Machine) (change : Interrupts → Interrupts) : Machine :=
  { machine with interrupts := change machine.interrupts }

/-! ## The instruction stream -/

/-- The byte at the program counter, which moves on. -/
def fetch (machine : Machine) : Byte × Machine :=
  (machine.read machine.registers.pc, machine.jump (machine.registers.pc + 1))

/-- The next operand byte of the current instruction. -/
def fetchOperand (machine : Machine) : Byte × Machine :=
  let (value, machine) := machine.fetch
  (value, { machine with operands := machine.operands.record value })

/-- The next operand word of the current instruction, low byte first. -/
def fetchOperandWord (machine : Machine) : Word × Machine :=
  let (low, machine) := machine.fetchOperand
  let (high, machine) := machine.fetchOperand
  (joinBytes high low, machine)

end Machine

end Z80
