import Z80.Machine.Block
import Z80.Machine.Operand
import Z80.Machine.Stack

/-!
# Executing an instruction

`Machine.execute` is the meaning of an instruction, and `Machine.perform` that of a page entry,
which also has its cost. The opcode has been read when an instruction executes, and the program
counter stands behind it.
-/

namespace Z80.Machine

/-- Loads the accumulator from a special register. Parity reports the kept interrupt gate. -/
def loadSpecial (machine : Machine) (source : SpecialRegister) : Machine :=
  let value :=
    match source with
    | .interruptPage => machine.registers.i
    | .refresh => machine.registers.r
  machine.update fun registers =>
    { registers with
      a := value
      flags :=
        { Flags.ofResult value with
          parity := machine.interrupts.iff2
          carry := registers.flags.carry } }

/-- Copies the accumulator to a special register. -/
def storeSpecial (machine : Machine) (target : SpecialRegister) : Machine :=
  machine.update fun registers =>
    match target with
    | .interruptPage => { registers with i := registers.a }
    | .refresh => { registers with r := registers.a }

/-- Receives a byte from the device in `BC` and sets the flags from it. -/
def receiveFlagged (machine : Machine) : Byte × Machine :=
  let (value, machine) := machine.receive machine.registers.bc
  (value, machine.update fun registers =>
    { registers with flags := { Flags.ofLogic value with carry := registers.flags.carry } })

/-- The device number whose high byte is the accumulator and whose low byte comes next in the
instruction. -/
def fetchDevice (machine : Machine) : Word × Machine :=
  let (low, machine) := machine.fetchOperand
  (joinBytes machine.registers.a low, machine)

/-- Goes on at a relative address, if the branch is taken. -/
def branch (machine : Machine) (cost : BranchCost) (taken : Bool) : Machine :=
  let (offset, machine) := machine.fetchOperand
  let machine := if taken then machine.jumpRelative offset else machine
  machine.spendBranch cost taken

/-- Executes an instruction. -/
def execute (machine : Machine) : Instruction → Machine
  | .noOperation => machine
  | .halt =>
      { machine with halted := true }.emit (.notice (.halted (machine.registers.pc - 1)))
  | .enableInterrupts => machine.updateInterrupts Interrupts.enable
  | .disableInterrupts => machine.updateInterrupts Interrupts.disable
  | .interruptMode mode => machine.updateInterrupts (·.setMode mode)
  | .load target source =>
      let (source, machine) := machine.locate source
      let (target, machine) := machine.locate target
      machine.put target (machine.get source)
  | .loadByte target =>
      let (target, machine) := machine.locate target
      let (value, machine) := machine.fetchOperand
      machine.put target value
  | .loadThrough pointer =>
      machine.put (.reg .a) (machine.read (machine.registers.getWord pointer))
  | .storeThrough pointer =>
      machine.write (machine.registers.getWord pointer) machine.registers.a
  | .loadDirect =>
      let (address, machine) := machine.fetchOperandWord
      machine.put (.reg .a) (machine.read address)
  | .storeDirect =>
      let (address, machine) := machine.fetchOperandWord
      machine.write address machine.registers.a
  | .loadSpecial source => machine.loadSpecial source
  | .storeSpecial target => machine.storeSpecial target
  | .loadWord target =>
      let (value, machine) := machine.fetchOperandWord
      machine.update (·.setWord target value)
  | .loadWordDirect target =>
      let (address, machine) := machine.fetchOperandWord
      let value := machine.readWord address
      machine.update (·.setWord target value)
  | .storeWordDirect source =>
      let (address, machine) := machine.fetchOperandWord
      machine.writeWord address (machine.registers.getWord source)
  | .loadStackPointer source =>
      machine.update fun registers => { registers with sp := registers.getWord source }
  | .push source => machine.push (machine.registers.getWord source)
  | .pop target =>
      let (value, machine) := machine.pop
      machine.update (·.setWord target value)
  | .exchangeTop register =>
      let value := machine.readWord machine.registers.sp
      let machine :=
        machine.writeWord machine.registers.sp (machine.registers.getWord register)
      machine.update (·.setWord register value)
  | .exchangeAccumulator => machine.update (·.exchange .af)
  | .exchangeBank => machine.update Registers.exchangeBank
  | .exchangeData =>
      machine.update fun registers => { registers with de := registers.hl, hl := registers.de }
  | .arithmetic op source =>
      let (source, machine) := machine.locate source
      machine.update (·.arithmetic op (machine.get source))
  | .arithmeticByte op =>
      let (value, machine) := machine.fetchOperand
      machine.update (·.arithmetic op value)
  | .accumulate op => machine.update (·.accumulate op)
  | .edit edit target copy =>
      let (target, machine) := machine.locate target
      let (result, machine) := machine.edit edit target
      match copy with
      | none => machine
      | some register => machine.put (.reg register) result
  | .testBit position source =>
      let (source, machine) := machine.locate source
      let value := machine.get source
      machine.update (·.testBit position value (source.copiedByte value))
  | .rotateDigit rotation =>
      let address := machine.registers.hl
      let (result, registers) := machine.registers.rotateDigit rotation (machine.read address)
      { machine with registers }.write address result
  | .arithmeticWord op target source =>
      machine.update fun registers =>
        let (result, registers) :=
          registers.arithmeticWord op (registers.getWord target) (registers.getWord source)
        registers.setWord target result
  | .incrementWord register => machine.update (·.incrementWord register)
  | .decrementWord register => machine.update (·.decrementWord register)
  | .jump =>
      let (address, machine) := machine.fetchOperandWord
      machine.jump address
  | .jumpIf condition =>
      let (address, machine) := machine.fetchOperandWord
      if condition.holds machine.registers.flags then machine.jump address else machine
  | .jumpRelative =>
      let (offset, machine) := machine.fetchOperand
      machine.jumpRelative offset
  | .jumpRelativeIf condition =>
      machine.branch .relativeJump (condition.holds machine.registers.flags)
  | .jumpCounted =>
      let machine := machine.update Registers.countByte
      machine.branch .countedJump (machine.registers.getByte .b != 0)
  | .jumpTo register => machine.jump (machine.registers.getWord register)
  | .call =>
      let (address, machine) := machine.fetchOperandWord
      machine.call address
  | .callIf condition =>
      let (address, machine) := machine.fetchOperandWord
      let taken := condition.holds machine.registers.flags
      (if taken then machine.call address else machine).spendBranch .call taken
  | .restart vector => machine.call vector
  | .ret => machine.ret
  | .retIf condition =>
      let taken := condition.holds machine.registers.flags
      (if taken then machine.ret else machine).spendBranch .ret taken
  | .retNonMaskable => machine.ret.updateInterrupts Interrupts.restore
  | .retMaskable => machine.ret.updateLines Lines.lowerMaskable
  | .inputDirect =>
      let (device, machine) := machine.fetchDevice
      let (value, machine) := machine.receive device
      machine.put (.reg .a) value
  | .outputDirect =>
      let (device, machine) := machine.fetchDevice
      machine.send device machine.registers.a
  | .input none => machine.receiveFlagged.2
  | .input (some target) =>
      let (value, machine) := machine.receiveFlagged
      machine.put (.reg target) value
  | .output none => machine.send machine.registers.bc 0
  | .output (some source) =>
      machine.send machine.registers.bc (machine.registers.getByte source)
  | .block op direction repeats =>
      if repeats then machine.blockRepeat op direction else (machine.blockRound op direction).2

/-- Spends the cost of an entry, as far as it is fixed, and executes its instruction. -/
def perform (machine : Machine) (entry : Entry) : Machine :=
  match entry.cost with
  | .fixed cycles => (machine.spend cycles).execute entry.instruction
  | .dynamic => machine.execute entry.instruction

end Z80.Machine
