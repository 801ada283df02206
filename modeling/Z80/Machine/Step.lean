import Z80.Code
import Z80.Machine.Execute

/-!
# The step

One step serves an interrupt, or idles while the processor is halted, or executes the instruction at
the program counter. `Machine.run` repeats it.
-/

namespace Z80.Machine

/-- The cycles that serving an interrupt takes. -/
def interruptCost : BitVec 32 := 11

/-- The cycles of a step in which nothing happens. -/
def idleCost : BitVec 32 := 4

/-- Serves a non-maskable request. -/
def serveNonMaskable (machine : Machine) : Machine :=
  let machine := machine.updateLines Lines.lowerNonMaskable
  let machine := { machine.updateInterrupts Interrupts.suspend with halted := false }
  let machine := machine.emit (.notice (.nonMaskableServed machine.registers.pc))
  (machine.call nonMaskableVector).spend interruptCost

/-- Serves a maskable request. In mode two the request is dropped. -/
def serveMaskable (machine : Machine) : Machine :=
  let machine := machine.updateLines Lines.lowerMaskable
  match machine.interrupts.mode with
  | .two => (machine.emit (.fault (.requestDropped machine.registers.pc))).spend idleCost
  | mode =>
      let machine := { machine.updateInterrupts Interrupts.disable with halted := false }
      let machine := machine.emit (.notice (.maskableServed machine.registers.pc mode))
      (machine.call maskableVector).spend interruptCost

/-- Reads the opcode behind the leading byte of a page. -/
def fetchOpcode (machine : Machine) (page : Page) : Code × Machine :=
  let (opcode, machine) := (machine.update (·.refresh 2)).fetch
  ({ page, opcode }, machine)

/-- Reads the opcode behind the leading byte of an index register. Where it leads on to bit
operations, a displacement and then the opcode proper are read as operands. -/
def fetchIndexedOpcode (machine : Machine) (index : Index) : Code × Machine :=
  let (opcode, machine) := (machine.update (·.refresh 2)).fetch
  if opcode = 0xCB then
    let (displacement, machine) := machine.fetchOperand
    let (opcode, machine) := machine.fetchOperand
    ({ page := .indexedBits index, opcode, displacement }, machine)
  else
    ({ page := .indexed index, opcode }, machine)

/-- Reads the code at the program counter and counts its memory refreshes. -/
def fetchCode (machine : Machine) : Code × Machine :=
  let (first, machine) := machine.fetch
  if first = 0xCB then machine.fetchOpcode .bits
  else if first = 0xED then machine.fetchOpcode .extended
  else if first = Index.leadByte .ix then machine.fetchIndexedOpcode .ix
  else if first = Index.leadByte .iy then machine.fetchIndexedOpcode .iy
  else ({ page := .unprefixed, opcode := first }, machine.update (·.refresh 1))

/-- Executes the instruction at the program counter and records it in the log. Bytes that select no
instruction are skipped and reported. -/
def executeNext (machine : Machine) : Machine :=
  let address := machine.registers.pc
  let (code, machine) := { machine with operands := {} }.fetchCode
  match code.entry? with
  | none => (machine.emit (.fault (.unhandledOpcode code.bytes address))).spend idleCost
  | some entry =>
      let machine := machine.perform entry
      machine.emit (.executed
        { address
          opcode := code.shownBytes
          operands := machine.operands.toList
          name := entry.name
          cost := entry.cost })

/-- Serves an interrupt, idles or executes an instruction. A non-maskable request comes first. -/
def step (machine : Machine) : Machine :=
  let machine := { machine with cycles := machine.cycles.begin }
  if machine.devices.lines.nonMaskable then machine.serveNonMaskable
  else if machine.interrupts.iff1 && machine.devices.lines.maskable then machine.serveMaskable
  else if machine.halted then machine.spend idleCost
  else machine.executeNext

/-- Takes the given number of steps. -/
def run : Nat → Machine → Machine
  | 0, machine => machine
  | count + 1, machine => run count machine.step

end Z80.Machine
