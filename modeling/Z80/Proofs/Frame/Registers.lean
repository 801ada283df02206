import Z80.Proofs.Frame.Listing
import Z80.Proofs.Runs.Modes

/-!
# Registers that few steps change

Each shadow, the interrupt page and mode, the index registers, the stack pointer and the halt state
are changed by a few instructions only, and by interrupts (`Machine.registerFrame`). Every other
step leaves them exactly as they were, whatever else it does.
-/

namespace Z80

/-! ## The instructions -/

/-- `EX AF,AF'`. -/
def accumulatorExchangeOpcodes : Listing
  | .unprefixed => [0x08]
  | _ => []

/-- `EXX`. -/
def bankExchangeOpcodes : Listing
  | .unprefixed => [0xD9]
  | _ => []

/-- `LD I,A`. -/
def interruptPageOpcodes : Listing
  | .extended => [0x47]
  | _ => []

/-- `HALT`. -/
def haltOpcodes : Listing
  | .unprefixed => [0x76]
  | _ => []

/-- What changes an index register: `ADD`, `LD`, `INC` and `DEC` of the register or of its halves,
`POP` and `EX (SP)`, all on its own page. -/
def indexOpcodes (index : Index) : Listing
  | .indexed other =>
      if other = index then
        [⟨0x09, 0x39, 0x10⟩, 0x21, ⟨0x23, 0x26, 1⟩, ⟨0x2A, 0x2E, 1⟩, ⟨0x60, 0x65, 1⟩,
          ⟨0x67, 0x6D, 1⟩, 0x6F, 0xE1, 0xE3]
      else []
  | _ => []

/-- What changes the stack pointer and goes on behind itself: `LD SP`, `INC SP`, `DEC SP`, `POP` and
`PUSH`. -/
def stackOpcodes : Listing
  | .unprefixed => [0x31, 0x33, 0x3B, 0xF9, ⟨0xC1, 0xF1, 0x10⟩, ⟨0xC5, 0xF5, 0x10⟩]
  | .extended => [0x7B]
  | .indexed _ => [0xE1, 0xE5, 0xF9]
  | _ => []

/-- The calls and returns: `CALL`, `RET` and `RST`, also with a condition, and `RETI` and `RETN`. -/
def callOpcodes : Listing
  | .unprefixed => [0xC9, 0xCD, ⟨0xC0, 0xF8, 8⟩, ⟨0xC4, 0xFC, 8⟩, ⟨0xC7, 0xFF, 8⟩]
  | .extended => [⟨0x45, 0x7D, 8⟩]
  | _ => []

theorem lists_accumulatorExchange :
    Lists accumulatorExchangeOpcodes (Part.shadowAccumulator ∈ ·.parts) :=
  lists_parts (.shadowAccumulator ∈ ·) (by decide +kernel)

theorem lists_bankExchange : Lists bankExchangeOpcodes (Part.shadowPairs ∈ ·.parts) :=
  lists_parts (.shadowPairs ∈ ·) (by decide +kernel)

theorem lists_interruptPage : Lists interruptPageOpcodes (Part.interruptPage ∈ ·.parts) :=
  lists_parts (.interruptPage ∈ ·) (by decide +kernel)

theorem lists_index (index : Index) : Lists (indexOpcodes index) (Part.index index ∈ ·.parts) := by
  refine lists_parts (.index index ∈ ·) ?_
  cases index <;> decide +kernel

theorem lists_stack : Lists stackOpcodes (Part.stackPointer ∈ ·.parts) :=
  lists_parts (.stackPointer ∈ ·) (by decide +kernel)

theorem lists_calls : Lists callOpcodes (Part.stackPointer ∈ ·.branchParts) :=
  lists_branchParts (.stackPointer ∈ ·) (by decide +kernel)

theorem lists_halt : Lists haltOpcodes (· = .halt) := by
  refine lists_instruction (fun opcode target copy => ?_) (by decide +kernel)
  unfold Page.bitInstruction
  split <;> exact nofun

/-! ## The halt state -/

/-- On a running processor, an instruction sets the halt state exactly if it is `HALT`. -/
theorem Instruction.halted_control (instruction : Instruction) {control : Control}
    (hrunning : control.halted = false) :
    (instruction.control control).halted = true ↔ instruction = .halt := by
  cases instruction with
  | halt => exact iff_of_true rfl rfl
  | _ => exact iff_of_false (Bool.eq_false_iff.1 hrunning) nofun

namespace Machine

variable {machine : Machine}

/-- A running processor halts exactly by executing `HALT`. -/
theorem halts_iff (hrunning : machine.halted = false) :
    machine.step.halted = true ↔ machine.ExecutesIn haltOpcodes := by
  have hcontrol := machine.stepControl
  rw [executesIn_iff lists_halt]
  show machine.step.control.halted = true ↔ _
  generalize machine.step.control = after at hcontrol ⊢
  cases hcontrol with
  | nonMaskable hraised =>
      refine iff_of_false Bool.false_ne_true fun h => ?_
      exact Bool.false_ne_true (h.1.noNonMaskable.symm.trans hraised)
  | served hdue => exact iff_of_false Bool.false_ne_true fun h => hdue.not_executes h.1
  | dropped hdue =>
      exact iff_of_false (Bool.eq_false_iff.1 hrunning) fun h => hdue.not_executes h.1
  | idle _ hhalted => exact absurd hhalted (Bool.eq_false_iff.1 hrunning)
  | unhandled _ hnone =>
      refine iff_of_false (Bool.eq_false_iff.1 hrunning) fun h => ?_
      obtain ⟨_, entry, hentry, _⟩ := h
      rw [hnone] at hentry
      exact Option.not_mem_none entry hentry
  | executed hexecutes hentry =>
      rw [Instruction.halted_control _ hrunning, and_iff_right hexecutes, Option.mem_def.1 hentry]
      simp

/-- A halted processor goes on exactly by entering an interrupt routine. -/
theorem resumes_iff (hhalted : machine.halted = true) :
    machine.step.halted = false ↔ machine.EntersInterrupt := by
  have hstill : machine.halted ≠ false := fun h => Bool.eq_false_iff.1 h hhalted
  have hcontrol := machine.stepControl
  show machine.step.control.halted = false ↔ _
  generalize machine.step.control = after at hcontrol ⊢
  cases hcontrol with
  | nonMaskable hraised => exact iff_of_true rfl (.inl hraised)
  | served hdue hmode => exact iff_of_true rfl (.inr ⟨hdue, hmode⟩)
  | dropped hdue hmode => exact iff_of_false hstill (hdue.not_entersInterrupt hmode)
  | idle hnothing => exact iff_of_false hstill hnothing.not_entersInterrupt
  | unhandled hexecutes | executed hexecutes => exact absurd hexecutes.running hstill

/-! ## The frame -/

/-- The instruction at the program counter transfers control: it is not one with a condition that
does not hold. -/
def Transfers (machine : Machine) : Prop :=
  ∃ entry ∈ machine.memory.entryAt? machine.registers.pc,
    entry.instruction.transfers machine = true

/-- What a step leaves alone, and which steps are excepted. -/
structure RegisterFrame (machine : Machine) : Prop where
  shadowAccumulator : ¬machine.ExecutesIn accumulatorExchangeOpcodes →
    machine.step.registers.shadow.a = machine.registers.shadow.a ∧
      machine.step.registers.shadow.flags = machine.registers.shadow.flags
  shadowPairs : ¬machine.ExecutesIn bankExchangeOpcodes →
    machine.step.registers.shadow.bc = machine.registers.shadow.bc ∧
      machine.step.registers.shadow.de = machine.registers.shadow.de ∧
      machine.step.registers.shadow.hl = machine.registers.shadow.hl
  interruptPage : ¬machine.ExecutesIn interruptPageOpcodes →
    machine.step.registers.i = machine.registers.i
  interruptMode : ¬machine.SelectsMode →
    machine.step.interrupts.mode = machine.interrupts.mode
  index : ∀ index, ¬machine.ExecutesIn (indexOpcodes index) →
    machine.step.registers.index index = machine.registers.index index
  stackPointer : ¬machine.EntersInterrupt → ¬machine.ExecutesIn stackOpcodes →
    ¬(machine.ExecutesIn callOpcodes ∧ machine.Transfers) →
    machine.step.registers.sp = machine.registers.sp
  halts : machine.halted = false →
    (machine.step.halted = true ↔ machine.ExecutesIn haltOpcodes)
  resumes : machine.halted = true →
    (machine.step.halted = false ↔ machine.EntersInterrupt)

/-- A step that selects no mode keeps the one it finds. -/
theorem mode_step_of_not_selectsMode (hselects : ¬machine.SelectsMode) :
    machine.step.interrupts.mode = machine.interrupts.mode := by
  by_cases hexecutes : machine.Executes
  · rw [hexecutes.selectsMode_iff, Option.not_isSome_iff_eq_none] at hselects
    rw [hexecutes.mode_step, hselects]
    rfl
  · exact mode_step_of_not_executes hexecutes

/-- Without a call or return and without an instruction for the stack pointer, it stays. -/
theorem stackPointer_step (henters : ¬machine.EntersInterrupt)
    (hstack : ¬machine.ExecutesIn stackOpcodes)
    (hcalls : ¬(machine.ExecutesIn callOpcodes ∧ machine.Transfers)) :
    machine.step.registers.sp = machine.registers.sp := by
  refine machine.part_step .stackPointer (fun _ => henters) (by decide) ?_
  intro hexecutes entry hentry hchanged
  rcases Instruction.mem_changes hchanged with hparts | ⟨htransfers, hbranch⟩
  · exact hstack ((executesIn_iff lists_stack).2 ⟨hexecutes, entry, hentry, hparts⟩)
  · exact hcalls ⟨(executesIn_iff lists_calls).2 ⟨hexecutes, entry, hentry, hbranch⟩,
      entry, hentry, htransfers⟩

/-- Every step keeps to the frame. -/
theorem registerFrame (machine : Machine) : machine.RegisterFrame where
  shadowAccumulator hnot := by
    have hkept := part_step_of_not_executesIn lists_accumulatorExchange (by decide) (by decide) hnot
    exact Prod.mk.inj hkept
  shadowPairs hnot := by
    have hkept := part_step_of_not_executesIn lists_bankExchange (by decide) (by decide) hnot
    exact (Prod.mk.inj hkept).imp_right Prod.mk.inj
  interruptPage hnot := part_step_of_not_executesIn lists_interruptPage (by decide) (by decide) hnot
  interruptMode := mode_step_of_not_selectsMode
  index index hnot :=
    part_step_of_not_executesIn (lists_index index) (by simp) (by simp) hnot
  stackPointer := stackPointer_step
  halts := halts_iff
  resumes := resumes_iff

end Machine

end Z80
