import Z80.Proofs.Frame.Listing
import Z80.Proofs.Runs.Interludes

/-!
# Flags that a step leaves alone

The flags change only by the opcodes of `flagOpcodes`, and the carry not even by all of those
(`carryKeeperOpcodes`). So between two steps of a calculation that hands on its carry a program may
load, count, move its pointers, branch, call and be interrupted: over any run in which no step sets
the carry, the carry is at the end what it was at the beginning (`Emulator.flagFrame`).
-/

namespace Z80

/-! ## The instructions -/

/-- The opcodes that may change a flag. -/
def flagOpcodes : Listing
  -- Arithmetic, `INC` and `DEC`, `ADD HL`, `RLCA` and its kin, `DAA`, `CPL`, `SCF`, `CCF`, `POP AF`
  -- and `EX AF,AF'`.
  | .unprefixed =>
      [⟨0x80, 0xBF, 1⟩, ⟨0xC6, 0xFE, 8⟩, ⟨0x04, 0x3C, 8⟩, ⟨0x05, 0x3D, 8⟩, ⟨0x09, 0x39, 0x10⟩,
        ⟨0x07, 0x1F, 8⟩, 0x27, 0x2F, 0x37, 0x3F, 0xF1, 0x08]
  -- Rotations, shifts and `BIT`.
  | .bits | .indexedBits _ => [⟨0x00, 0x7F, 1⟩]
  -- `IN`, `SBC HL` and `ADC HL`, `NEG`, `LD A,I` and `LD A,R`, `RRD` and `RLD`, and the block
  -- instructions.
  | .extended =>
      [⟨0x40, 0x78, 8⟩, ⟨0x42, 0x7A, 8⟩, ⟨0x44, 0x7C, 8⟩, 0x57, 0x5F, 0x67, 0x6F, ⟨0xA0, 0xA3, 1⟩,
        ⟨0xA8, 0xAB, 1⟩, ⟨0xB0, 0xB3, 1⟩, ⟨0xB8, 0xBB, 1⟩]
  -- `ADD`, `INC` and `DEC` of the halves and of memory, and arithmetic with these.
  | .indexed _ =>
      [⟨0x09, 0x39, 0x10⟩, 0x24, 0x25, 0x2C, 0x2D, 0x34, 0x35, ⟨0x84, 0xBC, 8⟩, ⟨0x85, 0xBD, 8⟩,
        ⟨0x86, 0xBE, 8⟩]

/-- Those of them that keep the carry. -/
def carryKeeperOpcodes : Listing
  -- `INC`, `DEC` and `CPL`.
  | .unprefixed => [⟨0x04, 0x3C, 8⟩, ⟨0x05, 0x3D, 8⟩, 0x2F]
  -- `BIT`.
  | .bits | .indexedBits _ => [⟨0x40, 0x7F, 1⟩]
  -- `IN`, `LD A,I` and `LD A,R`, `RRD` and `RLD`, `LDI`, `CPI`, `LDD`, `CPD` and these repeating.
  | .extended =>
      [⟨0x40, 0x78, 8⟩, 0x57, 0x5F, 0x67, 0x6F, 0xA0, 0xA1, 0xA8, 0xA9, 0xB0, 0xB1, 0xB8, 0xB9]
  -- `INC` and `DEC`.
  | .indexed _ => [0x24, 0x25, 0x2C, 0x2D, 0x34, 0x35]

theorem lists_flags : Lists flagOpcodes (Part.flags ∈ ·.parts) :=
  lists_parts (.flags ∈ ·) (by decide +kernel)

theorem lists_carryKeepers :
    Lists carryKeeperOpcodes fun instruction =>
      .flags ∈ instruction.parts ∧ .carry ∉ instruction.parts :=
  lists_parts (fun parts => .flags ∈ parts ∧ .carry ∉ parts) (by decide +kernel)

/-- What a program may do between two parts of a calculation that hands on its carry: load bytes and
words, but not flags; count and move pointers; compare and copy blocks; jump, call and return. -/
def Instruction.sparesCarry : Instruction → Bool
  | .load _ _ | .loadByte _ | .loadThrough _ | .storeThrough _ | .loadDirect | .storeDirect => true
  | .loadSpecial _ | .storeSpecial _ | .storeWordDirect _ | .loadStackPointer _ | .push _ => true
  | .loadWord target | .loadWordDirect target | .pop target | .exchangeTop target
  | .incrementWord target | .decrementWord target => target != .pair .af
  | .exchangeBank | .exchangeData => true
  | .edit .increment _ _ | .edit .decrement _ _ => true
  | .block .load _ _ | .block .compare _ _ => true
  | .jump | .jumpIf _ | .jumpRelative | .jumpRelativeIf _ | .jumpCounted | .jumpTo _ => true
  | .call | .callIf _ | .restart _ | .ret | .retIf _ | .retNonMaskable | .retMaskable => true
  | _ => false

theorem ByteRegister.carry_not_mem (register : ByteRegister) : Part.carry ∉ register.parts := by
  cases register <;> simp [parts]

theorem Operand.carry_not_mem (operand : Operand) : Part.carry ∉ operand.parts := by
  cases operand with
  | reg register => exact register.carry_not_mem
  | _ => exact List.not_mem_nil

/-- Of the sixteen-bit registers only `AF` holds the carry. -/
theorem WordRegister.carry_not_mem {register : WordRegister} (hother : (register != .pair .af)) :
    Part.carry ∉ register.parts := by
  cases register with
  | pair pair =>
      cases pair with
      | af => exact absurd hother (by decide)
      | bc | de | hl => exact List.not_mem_nil
  | index | sp => simp [parts]

theorem Instruction.carry_not_mem {instruction : Instruction}
    (hspares : instruction.sparesCarry = true) : Part.carry ∉ instruction.parts := by
  cases instruction with
  | load target | loadByte target => exact target.carry_not_mem
  | loadWord target | loadWordDirect target | exchangeTop target | incrementWord target
  | decrementWord target => exact WordRegister.carry_not_mem hspares
  | pop target =>
      show Part.carry ∉ [.stackPointer] ++ target.parts
      simp [WordRegister.carry_not_mem hspares]
  | edit change target copy =>
      have hcopy : Part.carry ∉ copy.elim [] ByteRegister.parts := by
        cases copy with
        | none => exact List.not_mem_nil
        | some register => exact register.carry_not_mem
      have hchange : Part.carry ∉ change.parts := by
        cases change with
        | increment | decrement => simp [Edit.parts]
        | shift | set | clear => exact absurd hspares Bool.false_ne_true
      show Part.carry ∉ change.parts ++ target.parts ++ copy.elim [] ByteRegister.parts
      simp [hchange, target.carry_not_mem, hcopy]
  | storeSpecial target => cases target <;> simp [parts]
  | block op =>
      cases op with
      | load | compare => simp [parts, BlockOp.parts]
      | input | output => exact absurd hspares Bool.false_ne_true
  | _ => first | exact absurd hspares Bool.false_ne_true | simp [parts]

/-! ## Steps -/

namespace Machine

variable {machine : Machine}

/-- The step may set the carry: it executes an opcode that changes flags and does not keep the
carry. -/
def SetsCarry (machine : Machine) : Prop :=
  machine.ExecutesIn flagOpcodes ∧ ¬machine.ExecutesIn carryKeeperOpcodes

/-- What a step leaves alone of the flags, and which steps are excepted. -/
structure StepFlagFrame (machine : Machine) : Prop where
  flags : ¬machine.ExecutesIn flagOpcodes →
    machine.step.registers.flags = machine.registers.flags
  carry : machine.ExecutesIn carryKeeperOpcodes →
    machine.step.registers.flags.carry = machine.registers.flags.carry
  spared : ∀ entry ∈ machine.memory.entryAt? machine.registers.pc,
    entry.instruction.sparesCarry = true → ¬machine.SetsCarry
  interrupted : ¬machine.Executes → machine.step.registers.flags = machine.registers.flags

theorem flags_step (hnot : ¬machine.ExecutesIn flagOpcodes) :
    machine.step.registers.flags = machine.registers.flags :=
  part_step_of_not_executesIn lists_flags (by decide) (by decide) hnot

/-- An instruction that has no part in the carry keeps it. -/
theorem carry_step_of_not_mem (hparts : machine.Executes →
      ∀ entry ∈ machine.memory.entryAt? machine.registers.pc, .carry ∉ entry.instruction.parts) :
    machine.step.registers.flags.carry = machine.registers.flags.carry := by
  refine machine.part_step .carry (by simp) (by decide) ?_
  intro hexecutes entry hentry hchanged
  exact hparts hexecutes entry hentry (Instruction.mem_parts_of_changes (by decide) hchanged)

theorem carry_step_of_keeper (hkeeper : machine.ExecutesIn carryKeeperOpcodes) :
    machine.step.registers.flags.carry = machine.registers.flags.carry := by
  obtain ⟨_, entry, hentry, _, hcarry⟩ := (executesIn_iff lists_carryKeepers).1 hkeeper
  refine carry_step_of_not_mem fun _ other hother => ?_
  obtain rfl := Option.mem_unique hentry hother
  exact hcarry

theorem carry_step (hspared : ¬machine.SetsCarry) :
    machine.step.registers.flags.carry = machine.registers.flags.carry := by
  by_cases hkeeper : machine.ExecutesIn carryKeeperOpcodes
  · exact carry_step_of_keeper hkeeper
  -- A step that is not listed at all keeps every flag, and so the carry.
  · have hflags : ¬machine.ExecutesIn flagOpcodes := fun h => hspared ⟨h, hkeeper⟩
    exact congrArg Flags.carry (flags_step hflags)

/-- An instruction that spares the carry is listed as keeping it, if it is listed at all. -/
theorem not_setsCarry_of_spares {entry : Entry}
    (hentry : entry ∈ machine.memory.entryAt? machine.registers.pc)
    (hspares : entry.instruction.sparesCarry = true) : ¬machine.SetsCarry := by
  rintro ⟨hflags, hkeeper⟩
  obtain ⟨hexecutes, other, hother, hmember⟩ := (executesIn_iff lists_flags).1 hflags
  obtain rfl := Option.mem_unique hentry hother
  refine hkeeper ((executesIn_iff lists_carryKeepers).2 ⟨hexecutes, entry, hentry, hmember, ?_⟩)
  exact Instruction.carry_not_mem hspares

theorem stepFlagFrame (machine : Machine) : machine.StepFlagFrame where
  flags := flags_step
  carry := carry_step_of_keeper
  spared _ := not_setsCarry_of_spares
  interrupted hnot := flags_step fun h => hnot h.1

end Machine

/-! ## Runs -/

namespace Emulator

variable {σ : Type} [Observer σ]

/-- What steps and runs leave alone of the flags. -/
structure FlagFrame (emulator : Emulator σ) : Prop where
  step : emulator.machine.StepFlagFrame
  chain : ∀ interludes, ¬emulator.Meets interludes Machine.SetsCarry →
    (emulator.run interludes).2.machine.registers.flags.carry =
      emulator.machine.registers.flags.carry

/-- A run without a step that sets the carry hands it on. -/
theorem carry_run {emulator : Emulator σ} {interludes : List (Interlude σ)}
    (hspared : ¬emulator.Meets interludes Machine.SetsCarry) :
    (emulator.run interludes).2.machine.registers.flags.carry =
      emulator.machine.registers.flags.carry := by
  induction interludes generalizing emulator with
  | nil => rfl
  | cons interlude interludes ih =>
      rw [meets_cons, not_or] at hspared
      rw [run_cons]
      exact (ih hspared.2).trans (Machine.carry_step hspared.1)

/-- Every emulator keeps to the frame. -/
theorem flagFrame (emulator : Emulator σ) : emulator.FlagFrame where
  step := emulator.machine.stepFlagFrame
  chain _ := carry_run

end Emulator

end Z80
