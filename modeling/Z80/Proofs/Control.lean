import Z80.Proofs.Decode

/-!
# The control state

Whether the processor is halted, its interrupt flip-flops and mode, and the request lines decide how
the next step is taken. Six instructions change this control state, each in a way of its own that
looks at nothing else (`control_execute`); every other operation of the machine leaves it alone.
-/

namespace Z80

/-- What decides whether the next step serves a request, idles or executes an instruction. -/
structure Control where
  halted : Bool
  interrupts : Interrupts
  lines : Lines
deriving DecidableEq

/-- What an instruction does to the control state. -/
def Instruction.control (control : Control) : Instruction → Control
  | .halt => { control with halted := true }
  | .enableInterrupts => { control with interrupts := control.interrupts.enable }
  | .disableInterrupts => { control with interrupts := control.interrupts.disable }
  | .interruptMode mode => { control with interrupts := control.interrupts.setMode mode }
  | .retNonMaskable => { control with interrupts := control.interrupts.restore }
  | .retMaskable => { control with lines := control.lines.lowerMaskable }
  | _ => control

theorem Instruction.lines_control {instruction : Instruction} (control : Control)
    (hreturns : instruction ≠ .retMaskable) :
    (instruction.control control).lines = control.lines := by
  cases instruction with
  | retMaskable => exact absurd rfl hreturns
  | _ => rfl

namespace Machine

/-- The control state of a machine. -/
def control (machine : Machine) : Control where
  halted := machine.halted
  interrupts := machine.interrupts
  lines := machine.devices.lines

variable (machine : Machine)

/-! ## Operations that leave the control state alone -/

@[simp] theorem control_emit (event : Event) : (machine.emit event).control = machine.control :=
  rfl

@[simp] theorem control_report (fault : Option Fault) :
    (machine.report fault).control = machine.control := by
  cases fault <;> rfl

@[simp] theorem control_update (change : Registers → Registers) :
    (machine.update change).control = machine.control :=
  rfl

@[simp] theorem control_spend (count : BitVec 32) :
    (machine.spend count).control = machine.control :=
  rfl

@[simp] theorem control_spendBranch (cost : BranchCost) (taken : Bool) :
    (machine.spendBranch cost taken).control = machine.control :=
  rfl

@[simp] theorem control_jump (address : Word) : (machine.jump address).control = machine.control :=
  rfl

@[simp] theorem control_jumpRelative (offset : Byte) :
    (machine.jumpRelative offset).control = machine.control :=
  rfl

@[simp] theorem control_write (address : Word) (value : Byte) :
    (machine.write address value).control = machine.control :=
  rfl

@[simp] theorem control_writeWord (address value : Word) :
    (machine.writeWord address value).control = machine.control :=
  rfl

@[simp] theorem control_receive (device : Word) :
    (machine.receive device).2.control = machine.control := by
  unfold receive Devices.take
  cases machine.devices.queue <;> rfl

@[simp] theorem control_send (device : Word) (value : Byte) :
    (machine.send device value).control = machine.control :=
  rfl

@[simp] theorem control_fetch : machine.fetch.2.control = machine.control :=
  rfl

@[simp] theorem control_fetchOperand : machine.fetchOperand.2.control = machine.control :=
  rfl

@[simp] theorem control_fetchOperandWord : machine.fetchOperandWord.2.control = machine.control :=
  rfl

@[simp] theorem control_fetchDevice : machine.fetchDevice.2.control = machine.control :=
  rfl

@[simp] theorem control_lowerStack : machine.lowerStack.control = machine.control := by
  simp [lowerStack]

@[simp] theorem control_raiseStack : machine.raiseStack.control = machine.control := by
  simp [raiseStack]

@[simp] theorem control_push (value : Word) : (machine.push value).control = machine.control := by
  simp [push, pushByte]

@[simp] theorem control_pop : machine.pop.2.control = machine.control := by
  simp [pop, popByte]

@[simp] theorem control_call (address : Word) :
    (machine.call address).control = machine.control := by
  simp [call]

@[simp] theorem control_ret : machine.ret.control = machine.control := by
  simp [ret]

@[simp] theorem control_locate (operand : Operand) :
    (machine.locate operand).2.control = machine.control := by
  cases operand <;> rfl

@[simp] theorem control_put (place : Place) (value : Byte) :
    (machine.put place value).control = machine.control := by
  cases place <;> rfl

@[simp] theorem control_edit (edit : Edit) (place : Place) :
    (machine.edit edit place).2.control = machine.control := by
  cases place <;> rfl

@[simp] theorem control_branch (cost : BranchCost) (taken : Bool) :
    (machine.branch cost taken).control = machine.control := by
  cases taken <;> rfl

@[simp] theorem control_receiveFlagged : machine.receiveFlagged.2.control = machine.control := by
  simp [receiveFlagged]

@[simp] theorem control_blockRound (op : BlockOp) (direction : Direction) :
    (machine.blockRound op direction).2.control = machine.control := by
  cases op <;> simp [blockRound, blockLoad, blockCompare, blockInput, blockOutput]

@[simp] theorem control_blockRepeat (op : BlockOp) (direction : Direction) :
    (machine.blockRepeat op direction).control = machine.control := by
  unfold blockRepeat
  cases h : (machine.blockRound op direction).1 <;> simp [h]

/-! ## Instructions -/

/-- An instruction changes the control state as `Instruction.control` says. -/
theorem control_execute (instruction : Instruction) :
    (machine.execute instruction).control = instruction.control machine.control := by
  cases instruction with
  | halt | enableInterrupts | disableInterrupts | interruptMode => rfl
  | retNonMaskable =>
      have hret := machine.control_ret
      simp only [control, Control.mk.injEq] at hret
      simp only [execute, updateInterrupts, control, Instruction.control, hret]
  | retMaskable =>
      have hret := machine.control_ret
      simp only [control, Control.mk.injEq] at hret
      simp only [execute, updateLines, control, Instruction.control, hret]
  | loadSpecial source | storeSpecial target => rfl
  | rotateDigit rotation => rfl
  | edit edit target copy => cases copy <;> simp [execute, Instruction.control]
  | input target => cases target <;> simp [execute, Instruction.control]
  | output source => cases source <;> simp [execute, Instruction.control]
  | block op direction repeats => cases repeats <;> simp [execute, Instruction.control]
  | jumpIf condition =>
      simp only [execute, Instruction.control]
      split <;> simp
  | callIf condition =>
      simp only [execute, Instruction.control, control_spendBranch]
      split <;> simp
  | retIf condition =>
      simp only [execute, Instruction.control, control_spendBranch]
      split <;> simp
  | _ => simp [execute, Instruction.control]

theorem control_perform (entry : Entry) :
    (machine.perform entry).control = entry.instruction.control machine.control := by
  unfold perform
  split <;> simp [control_execute]

/-! ## Steps -/

theorem control_fetchIndexedOpcode (index : Index) :
    (machine.fetchIndexedOpcode index).2.control = machine.control := by
  unfold fetchIndexedOpcode
  simp only [apply_ite Prod.snd, apply_ite control]
  exact ite_self _

theorem control_fetchCode : machine.fetchCode.2.control = machine.control := by
  unfold fetchCode
  simp only [apply_ite Prod.snd, apply_ite control, control_fetchIndexedOpcode]
  simp [fetchOpcode]

/-- Executing what stands at the program counter does to the control state what that instruction
does; bytes that select no instruction leave it alone. -/
theorem control_executeNext :
    machine.executeNext.control =
      (machine.memory.entryAt? machine.registers.pc).elim machine.control
        fun entry => entry.instruction.control machine.control := by
  have hcode := fetchCode_fst { machine with operands := {} }
  have hcontrol := control_fetchCode { machine with operands := {} }
  unfold executeNext Memory.entryAt?
  generalize { machine with operands := {} }.fetchCode = fetched at hcode hcontrol ⊢
  obtain ⟨code, next⟩ := fetched
  obtain rfl : code = machine.memory.code machine.registers.pc := hcode
  have hnext : next.control = machine.control := hcontrol
  cases hentry : Code.entry? (machine.memory.code machine.registers.pc) with
  | none => simp [hentry, hnext]
  | some entry => simp [hentry, hnext, control_perform]

variable {machine : Machine}

theorem Executes.control_step (hexecutes : machine.Executes) :
    machine.step.control =
      (machine.memory.entryAt? machine.registers.pc).elim machine.control
        fun entry => entry.instruction.control machine.control := by
  rw [hexecutes.step_eq]
  exact control_executeNext _

end Machine

end Z80
