import Z80.Machine.Step

/-!
# Steps that execute an instruction

A step executes an instruction exactly if the processor is not halted and no request is served
first (`Executes`). Then the bytes at the program counter select an entry, and the step is that
entry performed on the machine that has read them (`step_extended`).
-/

namespace Z80

/-- Refreshes are counted in the low seven bits of `R`. -/
theorem Registers.setWidth_r_refresh (registers : Registers) (count : Byte) :
    (registers.refresh count).r.setWidth 7 = registers.r.setWidth 7 + count.setWidth 7 := by
  rw [← BitVec.setWidth_add _ _ (by decide)]
  ext place hplace
  have hmask : (0x7F#7)[place] = true := by
    revert place
    decide
  simp [refresh, hmask]

/-- Bit 7 of `R` stays as it is. -/
theorem Registers.msb_r_refresh (registers : Registers) (count : Byte) :
    (registers.refresh count).r.msb = registers.r.msb := by
  have hmask : (0x80#8).msb = true ∧ (0x7F#8).msb = false := by decide
  simp [refresh, BitVec.msb_or, BitVec.msb_and, hmask]

namespace Machine

/-- The next step executes an instruction: it serves no request and does not idle. -/
structure Executes (machine : Machine) : Prop where
  running : machine.halted = false
  noNonMaskable : machine.devices.lines.nonMaskable = false
  noMaskable : machine.interrupts.iff1 = false ∨ machine.devices.lines.maskable = false

/-- The machine when an instruction begins to execute: behind the given number of opcode bytes, with
their memory refreshes counted and no operand read. -/
def entered (machine : Machine) (length : Word) (refreshes : Byte) : Machine :=
  { machine with
    registers := { machine.registers.refresh refreshes with
      pc := machine.registers.pc + length }
    cycles := machine.cycles.begin
    operands := {} }

variable {machine : Machine}

theorem Executes.step_eq (hexecutes : machine.Executes) :
    machine.step = { machine with cycles := machine.cycles.begin }.executeNext := by
  obtain ⟨hrunning, hnonMaskable, hmaskable⟩ := hexecutes
  have hclosed : (machine.interrupts.iff1 && machine.devices.lines.maskable) = false := by
    rcases hmaskable with h | h <;> simp [h]
  simp only [step, hrunning, hnonMaskable, hclosed]
  rfl

/-- Behind the leading byte of the page of extensions, the next byte is the opcode. -/
theorem fetchCode_extended (hlead : machine.read machine.registers.pc = 0xED) :
    { machine with cycles := machine.cycles.begin, operands := {} }.fetchCode =
      ({ page := .extended, opcode := machine.read (machine.registers.pc + 1) },
        machine.entered 2 2) := by
  have hfirst : { machine with cycles := machine.cycles.begin, operands := {} }.read
      machine.registers.pc = 0xED := hlead
  have hbehind : machine.registers.pc + 1 + 1 = machine.registers.pc + 2 := BitVec.add_assoc ..
  simp only [fetchCode, fetch, hfirst, fetchOpcode, entered]
  rw [← hbehind]
  rfl

/-- A step at an opcode of the page of extensions performs its entry and records it. -/
theorem step_extended {entry : Entry} (hexecutes : machine.Executes)
    (hlead : machine.read machine.registers.pc = 0xED)
    (hentry : Page.extendedEntry? (machine.read (machine.registers.pc + 1)) = some entry) :
    machine.step =
      ((machine.entered 2 2).perform entry).emit (.executed
        { address := machine.registers.pc
          opcode := [0xED, machine.read (machine.registers.pc + 1)]
          operands := ((machine.entered 2 2).perform entry).operands.toList
          name := entry.name
          cost := entry.cost }) := by
  -- The selection of an entry goes by the page, which is settled here.
  have hcode : Code.entry?
      { page := .extended, opcode := machine.read (machine.registers.pc + 1) } = some entry :=
    hentry
  rw [hexecutes.step_eq]
  simp only [executeNext, fetchCode_extended hlead, hcode]
  rfl

/-- The last step of a run can be taken apart as well as the first. -/
theorem run_succ (count : Nat) (machine : Machine) :
    run (count + 1) machine = (run count machine).step := by
  induction count generalizing machine with
  | zero => rfl
  | succ count ih => exact ih machine.step

end Machine

end Z80
