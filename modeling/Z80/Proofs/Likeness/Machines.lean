import Z80.Machine.Execute
import Z80.Proofs.Likeness.Registers

/-!
# Machines that are alike

Two machines are alike if their registers, interrupt modes and logs are, and the rest of them is the
same (`Likeness.OfMachines`). Each operation of the machine has one lemma here: done by both, it
yields the same and leaves them alike.
-/

namespace Z80.Likeness

variable {likeness : Likeness} {left right : Machine}

/-! ## Interrupt control -/

/-- Interrupt flip-flops that are the same, with modes that are alike. -/
structure OfInterrupts (likeness : Likeness) (left right : Interrupts) : Prop where
  iff1 : right.iff1 = left.iff1
  iff2 : right.iff2 = left.iff2
  mode : likeness.modes left.mode right.mode

namespace OfInterrupts

variable {left right : Interrupts}

theorem enable (halike : likeness.OfInterrupts left right) :
    likeness.OfInterrupts left.enable right.enable :=
  { halike with iff1 := rfl, iff2 := rfl }

theorem disable (halike : likeness.OfInterrupts left right) :
    likeness.OfInterrupts left.disable right.disable :=
  { halike with iff1 := rfl, iff2 := rfl }

theorem setMode (halike : likeness.OfInterrupts left right) (mode : InterruptMode) :
    likeness.OfInterrupts (left.setMode mode) (right.setMode mode) :=
  { halike with mode := likeness.modes_refl mode }

theorem suspend (halike : likeness.OfInterrupts left right) :
    likeness.OfInterrupts left.suspend right.suspend :=
  { halike with iff1 := rfl, iff2 := halike.iff1 }

theorem restore (halike : likeness.OfInterrupts left right) :
    likeness.OfInterrupts left.restore right.restore :=
  { halike with iff1 := halike.iff2 }

theorem eq_of_mode (halike : likeness.OfInterrupts left right) (hmode : right.mode = left.mode) :
    right = left := by
  obtain ⟨iff1, iff2, mode⟩ := right
  obtain rfl : iff1 = left.iff1 := halike.iff1
  obtain rfl : iff2 = left.iff2 := halike.iff2
  obtain rfl : mode = left.mode := hmode
  rfl

end OfInterrupts

/-! ## Machines -/

/-- Two machines that are alike. -/
structure OfMachines (likeness : Likeness) (left right : Machine) : Prop where
  registers : likeness.OfRegisters left.registers right.registers
  interrupts : likeness.OfInterrupts left.interrupts right.interrupts
  halted : right.halted = left.halted
  cycles : right.cycles = left.cycles
  operands : right.operands = left.operands
  memory : right.memory = left.memory
  window : right.window = left.window
  devices : right.devices = left.devices
  log : likeness.logs left.log right.log

/-- Two results that are the same, with machines that are alike. -/
structure OfResults {α : Type} (likeness : Likeness) (left right : α × Machine) : Prop where
  result : right.1 = left.1
  machine : likeness.OfMachines left.2 right.2

namespace OfMachines

theorem across (machine : Machine) {log : Array Event} (hlog : likeness.logs machine.log log) :
    likeness.OfMachines machine
      { machine with registers := machine.registers.across likeness.swapped, log } where
  registers := .across _
  interrupts := ⟨rfl, rfl, likeness.modes_refl _⟩
  halted := rfl
  cycles := rfl
  operands := rfl
  memory := rfl
  window := rfl
  devices := rfl
  log := hlog

/-- Where flags and modes are the same, nothing but names and the log differs. -/
theorem eq_of_exact (halike : likeness.OfMachines left right) (hexact : likeness.Exact)
    (hmode : right.interrupts.mode = left.interrupts.mode) :
    right =
      { left with
        registers := left.registers.across likeness.swapped
        log := right.log } := by
  have hregisters := halike.registers.eq_of_exact hexact
  have hinterrupts := halike.interrupts.eq_of_mode hmode
  obtain ⟨⟨registers, interrupts, halted, cycles, operands⟩, memory, window, devices, log⟩ := right
  obtain rfl : interrupts = left.interrupts := hinterrupts
  obtain rfl : halted = left.halted := halike.halted
  obtain rfl : cycles = left.cycles := halike.cycles
  obtain rfl : operands = left.operands := halike.operands
  obtain rfl : memory = left.memory := halike.memory
  obtain rfl : window = left.window := halike.window
  obtain rfl : devices = left.devices := halike.devices
  rw [← hregisters]

theorem emit (halike : likeness.OfMachines left right) (event : Event) :
    likeness.OfMachines (left.emit event) (right.emit event) :=
  { halike with log := likeness.logs_push halike.log event }

theorem report (halike : likeness.OfMachines left right) (fault : Option Fault) :
    likeness.OfMachines (left.report fault) (right.report fault) := by
  cases fault with
  | none => exact halike
  | some fault => exact halike.emit _

theorem withRegisters (halike : likeness.OfMachines left right) {first second : Registers}
    (hregisters : likeness.OfRegisters first second) :
    likeness.OfMachines { left with registers := first } { right with registers := second } :=
  { halike with registers := hregisters }

theorem withInterrupts (halike : likeness.OfMachines left right) {first second : Interrupts}
    (hinterrupts : likeness.OfInterrupts first second) :
    likeness.OfMachines { left with interrupts := first } { right with interrupts := second } :=
  { halike with interrupts := hinterrupts }

theorem withHalted (halike : likeness.OfMachines left right) (halted : Bool) :
    likeness.OfMachines { left with halted } { right with halted } :=
  { halike with halted := rfl }

theorem updateLines (halike : likeness.OfMachines left right) (change : Lines → Lines) :
    likeness.OfMachines (left.updateLines change) (right.updateLines change) := by
  unfold Machine.updateLines
  rw [halike.devices]
  exact { halike with devices := rfl }

theorem spend (halike : likeness.OfMachines left right) (count : BitVec 32) :
    likeness.OfMachines (left.spend count) (right.spend count) :=
  { halike with cycles := congrArg (·.spend count) halike.cycles }

theorem spendBranch (halike : likeness.OfMachines left right) (cost : BranchCost) (taken : Bool) :
    likeness.OfMachines (left.spendBranch cost taken) (right.spendBranch cost taken) :=
  halike.spend _

theorem jump (halike : likeness.OfMachines left right) (address : Word) :
    likeness.OfMachines (left.jump address) (right.jump address) :=
  halike.withRegisters (halike.registers.jump address)

theorem jumpRelative (halike : likeness.OfMachines left right) (offset : Byte) :
    likeness.OfMachines (left.jumpRelative offset) (right.jumpRelative offset) := by
  unfold Machine.jumpRelative
  rw [halike.registers.pc]
  exact halike.jump _

/-- A choice that both machines make in the same way. -/
theorem ite (condition : Bool) {leftOther rightOther : Machine}
    (htrue : likeness.OfMachines left right)
    (hfalse : likeness.OfMachines leftOther rightOther) :
    likeness.OfMachines (if condition then left else leftOther)
      (if condition then right else rightOther) := by
  cases condition with
  | true => exact htrue
  | false => exact hfalse

/-! ### Memory and devices -/

theorem read (halike : likeness.OfMachines left right) (address : Word) :
    right.read address = left.read address :=
  congrArg (·.read address) halike.memory

theorem readWord (halike : likeness.OfMachines left right) (address : Word) :
    right.readWord address = left.readWord address :=
  congrArg (·.readWord address) halike.memory

theorem write (halike : likeness.OfMachines left right) (address : Word) (value : Byte) :
    likeness.OfMachines (left.write address value) (right.write address value) := by
  have hwritten : likeness.OfMachines
      { left with memory := left.memory.write address value }
      { right with memory := right.memory.write address value } :=
    { halike with memory := congrArg (·.write address value) halike.memory }
  exact hwritten.emit _

theorem writeWord (halike : likeness.OfMachines left right) (address value : Word) :
    likeness.OfMachines (left.writeWord address value) (right.writeWord address value) :=
  (halike.write _ _).write _ _

theorem receive (halike : likeness.OfMachines left right) (device : Word) :
    likeness.OfResults (left.receive device) (right.receive device) := by
  have htaken : likeness.OfMachines { left with devices := left.devices.take.2 }
      { right with devices := left.devices.take.2 } :=
    { halike with devices := rfl }
  unfold Machine.receive
  rw [halike.devices]
  exact ⟨rfl, htaken.emit _⟩

theorem send (halike : likeness.OfMachines left right) (device : Word) (value : Byte) :
    likeness.OfMachines (left.send device value) (right.send device value) :=
  halike.emit _

/-! ### The instruction stream -/

theorem fetch (halike : likeness.OfMachines left right) :
    likeness.OfResults left.fetch right.fetch := by
  unfold Machine.fetch
  rw [halike.registers.pc, halike.read]
  exact ⟨rfl, halike.jump _⟩

theorem fetchOperand (halike : likeness.OfMachines left right) :
    likeness.OfResults left.fetchOperand right.fetchOperand where
  result := halike.fetch.result
  machine :=
    { halike.fetch.machine with
      operands := by
        show right.operands.record right.fetch.1 = left.operands.record left.fetch.1
        rw [halike.operands, halike.fetch.result] }

theorem fetchOperandWord (halike : likeness.OfMachines left right) :
    likeness.OfResults left.fetchOperandWord right.fetchOperandWord where
  result := by
    show joinBytes right.fetchOperand.2.fetchOperand.1 right.fetchOperand.1 =
      joinBytes left.fetchOperand.2.fetchOperand.1 left.fetchOperand.1
    rw [halike.fetchOperand.machine.fetchOperand.result, halike.fetchOperand.result]
  machine := halike.fetchOperand.machine.fetchOperand.machine

theorem fetchDevice (halike : likeness.OfMachines left right) :
    likeness.OfResults left.fetchDevice right.fetchDevice where
  result := by
    show joinBytes right.fetchOperand.2.registers.a right.fetchOperand.1 =
      joinBytes left.fetchOperand.2.registers.a left.fetchOperand.1
    rw [halike.fetchOperand.machine.registers.a, halike.fetchOperand.result]
  machine := halike.fetchOperand.machine

/-! ### The stack -/

theorem lowerStack (halike : likeness.OfMachines left right) :
    likeness.OfMachines left.lowerStack right.lowerStack := by
  unfold Machine.lowerStack
  rw [halike.window, halike.registers.sp]
  have hreported := halike.report (left.window.decrement left.registers.sp).2
  exact hreported.withRegisters { hreported.registers with sp := rfl }

theorem raiseStack (halike : likeness.OfMachines left right) :
    likeness.OfMachines left.raiseStack right.raiseStack := by
  unfold Machine.raiseStack
  rw [halike.window, halike.registers.sp]
  have hreported := halike.report (left.window.increment left.registers.sp).2
  exact hreported.withRegisters { hreported.registers with sp := rfl }

theorem pushByte (halike : likeness.OfMachines left right) (value : Byte) :
    likeness.OfMachines (left.pushByte value) (right.pushByte value) := by
  have hlowered := halike.lowerStack
  simp only [Machine.pushByte, hlowered.registers.sp]
  exact hlowered.write _ _

theorem popByte (halike : likeness.OfMachines left right) :
    likeness.OfResults left.popByte right.popByte where
  result := by
    unfold Machine.popByte
    rw [halike.registers.sp]
    exact halike.read _
  machine := halike.raiseStack

theorem push (halike : likeness.OfMachines left right) (value : Word) :
    likeness.OfMachines (left.push value) (right.push value) :=
  (halike.pushByte _).pushByte _

theorem pop (halike : likeness.OfMachines left right) :
    likeness.OfResults left.pop right.pop where
  result := by
    show joinBytes right.popByte.2.popByte.1 right.popByte.1 =
      joinBytes left.popByte.2.popByte.1 left.popByte.1
    rw [halike.popByte.machine.popByte.result, halike.popByte.result]
  machine := halike.popByte.machine.popByte.machine

theorem call (halike : likeness.OfMachines left right) (address : Word) :
    likeness.OfMachines (left.call address) (right.call address) := by
  unfold Machine.call
  rw [halike.registers.pc]
  exact (halike.push _).jump address

theorem ret (halike : likeness.OfMachines left right) :
    likeness.OfMachines left.ret right.ret := by
  have hpopped := halike.pop
  unfold Machine.ret
  simp only [hpopped.result]
  exact hpopped.machine.jump _

/-! ### Operands -/

theorem locate (halike : likeness.OfMachines left right) (operand : Operand) :
    (right.locate (operand.across likeness.swapped)).1 =
        (left.locate operand).1.across likeness.swapped ∧
      likeness.OfMachines (left.locate operand).2
        (right.locate (operand.across likeness.swapped)).2 := by
  cases operand with
  | reg register => exact ⟨rfl, halike⟩
  | indirect => exact ⟨congrArg Place.cell halike.registers.hl, halike⟩
  | displaced index =>
      have hdisplacement := halike.fetchOperand
      have hindex := hdisplacement.machine.registers.index index
      refine ⟨congrArg Place.cell ?_, hdisplacement.machine⟩
      exact congr (congrArg displaced hindex) hdisplacement.result
  | offset index displacement =>
      have hindex := halike.registers.index index
      exact ⟨congrArg (fun base => Place.cell (displaced base displacement)) hindex, halike⟩

theorem get (halike : likeness.OfMachines left right) (place : Place) :
    right.get (place.across likeness.swapped) = left.get place := by
  cases place with
  | reg register => exact halike.registers.getByte register
  | cell address => exact halike.read address

theorem put (halike : likeness.OfMachines left right) (place : Place) (value : Byte) :
    likeness.OfMachines (left.put place value)
      (right.put (place.across likeness.swapped) value) := by
  cases place with
  | reg register =>
      exact halike.withRegisters (halike.registers.setByte register value)
  | cell address => exact halike.write address value

theorem edit (halike : likeness.OfMachines left right) (edit : Edit) (place : Place) :
    likeness.OfResults (left.edit edit place)
      (right.edit edit (place.across likeness.swapped)) := by
  obtain ⟨hresult, hregisters⟩ := halike.registers.edit edit (left.get place)
  have hedited := halike.withRegisters hregisters
  unfold Machine.edit
  rw [halike.get]
  refine ⟨hresult, ?_⟩
  simp only [hresult]
  exact hedited.put place _

/-! ### Parts of instructions -/

theorem holds (halike : likeness.OfMachines left right) (condition : Condition) :
    condition.holds right.registers.flags = condition.holds left.registers.flags :=
  likeness.flags_congr _ condition.holds_documented halike.registers.flags

theorem loadSpecial (halike : likeness.OfMachines left right) (source : SpecialRegister) :
    likeness.OfMachines (left.loadSpecial source) (right.loadSpecial source) := by
  have hcarry : right.registers.flags.carry = left.registers.flags.carry :=
    likeness.flags_congr Flags.carry (fun _ => rfl) halike.registers.flags
  refine halike.withRegisters { halike.registers with a := ?_, flags := ?_ }
  · simp only [halike.registers.i, halike.registers.r]
  · simp only [halike.registers.i, halike.registers.r, halike.interrupts.iff2, hcarry]
    exact likeness.flags_refl _

theorem storeSpecial (halike : likeness.OfMachines left right) (target : SpecialRegister) :
    likeness.OfMachines (left.storeSpecial target) (right.storeSpecial target) := by
  refine halike.withRegisters ?_
  cases target with
  | interruptPage => exact { halike.registers with i := halike.registers.a }
  | refresh => exact { halike.registers with r := halike.registers.a }

theorem receiveFlagged (halike : likeness.OfMachines left right) :
    likeness.OfResults left.receiveFlagged right.receiveFlagged := by
  have hreceived := halike.receive left.registers.bc
  have hcarry : (right.receive left.registers.bc).2.registers.flags.carry =
      (left.receive left.registers.bc).2.registers.flags.carry :=
    likeness.flags_congr Flags.carry (fun _ => rfl) hreceived.machine.registers.flags
  unfold Machine.receiveFlagged
  rw [halike.registers.bc]
  refine ⟨hreceived.result, hreceived.machine.withRegisters ?_⟩
  simp only [hreceived.result, hcarry]
  exact { hreceived.machine.registers with flags := likeness.flags_refl _ }

theorem branch (halike : likeness.OfMachines left right) (cost : BranchCost) (taken : Bool) :
    likeness.OfMachines (left.branch cost taken) (right.branch cost taken) := by
  have hoffset := halike.fetchOperand
  unfold Machine.branch
  simp only [hoffset.result]
  exact (ite taken (hoffset.machine.jumpRelative _) hoffset.machine).spendBranch cost taken

end OfMachines

end Z80.Likeness
