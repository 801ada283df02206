import Z80.Machine.Basic

/-!
# The stack

Words go onto the stack high byte first, at descending addresses, and come off it in the reverse
order. Each step of the stack pointer keeps to the stack window and reports when it had to wrap.
-/

namespace Z80.Machine

/-- Moves the stack pointer down one place. -/
def lowerStack (machine : Machine) : Machine :=
  let (sp, fault) := machine.window.decrement machine.registers.sp
  (machine.report fault).update fun registers => { registers with sp }

/-- Moves the stack pointer up one place. -/
def raiseStack (machine : Machine) : Machine :=
  let (sp, fault) := machine.window.increment machine.registers.sp
  (machine.report fault).update fun registers => { registers with sp }

/-- Moves the stack pointer down and writes a byte there. -/
def pushByte (machine : Machine) (value : Byte) : Machine :=
  let machine := machine.lowerStack
  machine.write machine.registers.sp value

/-- The byte at the stack pointer, which moves up. -/
def popByte (machine : Machine) : Byte × Machine :=
  (machine.read machine.registers.sp, machine.raiseStack)

/-- Pushes a word. -/
def push (machine : Machine) (value : Word) : Machine :=
  (machine.pushByte (highByte value)).pushByte (lowByte value)

/-- Pops a word. -/
def pop (machine : Machine) : Word × Machine :=
  let (low, machine) := machine.popByte
  let (high, machine) := machine.popByte
  (joinBytes high low, machine)

/-- Pushes the program counter and goes on at an address. -/
def call (machine : Machine) (address : Word) : Machine :=
  (machine.push machine.registers.pc).jump address

/-- Goes on at the address popped from the stack. -/
def ret (machine : Machine) : Machine :=
  let (address, machine) := machine.pop
  machine.jump address

end Z80.Machine
