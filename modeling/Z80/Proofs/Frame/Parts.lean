import Z80.Proofs.Frame.Accesses

/-!
# The parts of the register file that an instruction changes

The register file splits into parts that few instructions change. `Instruction.parts` is the
inventory of what an instruction changes in any case, and `Instruction.branchParts` of what it
changes besides where it transfers control. Here are the inventories and what they say of the
operations on the register file itself; the machine follows in the next module.
-/

namespace Z80

/-! ## Parts -/

/-- A part of the register file that most instructions leave alone. The carry is one of the flags,
and stands apart because some of the instructions that set flags keep it. -/
inductive Part where
  | flags
  | carry
  | shadowAccumulator
  | shadowPairs
  | index (index : Index)
  | stackPointer
  | programCounter
  | interruptPage
  | refresh
deriving DecidableEq

/-- What a part holds. -/
def Part.Contents : Part → Type
  | .flags => Flags
  | .carry => Bool
  | .shadowAccumulator => Byte × Flags
  | .shadowPairs => Word × Word × Word
  | .index _ | .stackPointer | .programCounter => Word
  | .interruptPage | .refresh => Byte

namespace Registers

/-- The contents of a part. -/
def part (registers : Registers) : (part : Part) → part.Contents
  | .flags => registers.flags
  | .carry => registers.flags.carry
  | .shadowAccumulator => (registers.shadow.a, registers.shadow.flags)
  | .shadowPairs => (registers.shadow.bc, registers.shadow.de, registers.shadow.hl)
  | .index index => registers.index index
  | .stackPointer => registers.sp
  | .programCounter => registers.pc
  | .interruptPage => registers.i
  | .refresh => registers.r

/-- Between two register files at most some parts have changed. -/
def ChangedIn (before : Registers) (parts : List Part) (after : Registers) : Prop :=
  ∀ part ∉ parts, after.part part = before.part part

namespace ChangedIn

variable {before between after : Registers} {parts first second : List Part}

theorem refl (registers : Registers) : registers.ChangedIn [] registers :=
  fun _ _ => rfl

theorem trans (hfirst : before.ChangedIn first between) (hsecond : between.ChangedIn second after) :
    before.ChangedIn (first ++ second) after := by
  intro part hpart
  rw [List.mem_append, not_or] at hpart
  exact (hsecond part hpart.2).trans (hfirst part hpart.1)

end ChangedIn

end Registers

/-! ## Operations on the register file -/

/-- The parts that a change of an eight-bit register changes. -/
def ByteRegister.parts : ByteRegister → List Part
  | .indexHigh index | .indexLow index => [.index index]
  | _ => []

/-- The parts that a change of a sixteen-bit register changes. -/
def WordRegister.parts : WordRegister → List Part
  | .pair .af => [.flags, .carry]
  | .pair _ => []
  | .index which => [.index which]
  | .sp => [.stackPointer]

/-- The parts that an operation on the accumulator changes. -/
def AccumulatorOp.parts : AccumulatorOp → List Part
  | .complement => [.flags]
  | _ => [.flags, .carry]

/-- The parts that a change of a byte changes besides that byte. -/
def Edit.parts : Edit → List Part
  | .shift _ => [.flags, .carry]
  | .increment | .decrement => [.flags]
  | .set _ | .clear _ => []

namespace Registers

variable (registers : Registers)

theorem changedIn_setIndex (index : Index) (value : Word) :
    registers.ChangedIn [.index index] (registers.setIndex index value) := by
  intro part hpart
  cases part with
  | index other =>
      have hother : other ≠ index := fun hsame => hpart (by rw [hsame]; exact .head _)
      cases index <;> cases other <;> first | rfl | exact absurd rfl hother
  | _ => cases index <;> rfl

/-- A bank with the same flags differs in no part. -/
theorem changedIn_of_flags {bank : Bank} (hflags : bank.flags = registers.flags) :
    registers.ChangedIn [] { registers with toBank := bank } := by
  intro part _
  cases part with
  | flags => exact hflags
  | carry => exact congrArg Flags.carry hflags
  | _ => rfl

/-- A bank with the same carry differs in the flags at most. -/
theorem changedIn_of_carry {bank : Bank} (hcarry : bank.flags.carry = registers.flags.carry) :
    registers.ChangedIn [.flags] { registers with toBank := bank } := by
  intro part hpart
  cases part with
  | flags => exact absurd (.head _) hpart
  | carry => exact hcarry
  | _ => rfl

/-- Any other bank differs in the flags and the carry at most. -/
theorem changedIn_bank (bank : Bank) :
    registers.ChangedIn [.flags, .carry] { registers with toBank := bank } := by
  intro part hpart
  cases part with
  | flags => exact absurd (.head _) hpart
  | carry => exact absurd (.tail _ (.head _)) hpart
  | _ => rfl

theorem changedIn_setByte (register : ByteRegister) (value : Byte) :
    registers.ChangedIn register.parts (registers.setByte register value) := by
  cases register with
  | indexHigh | indexLow => exact registers.changedIn_setIndex _ _
  | _ => exact registers.changedIn_of_flags rfl

theorem changedIn_setWord (register : WordRegister) (value : Word) :
    registers.ChangedIn register.parts (registers.setWord register value) := by
  cases register with
  | pair pair =>
      cases pair with
      | af => exact registers.changedIn_bank _
      | bc | de | hl => exact registers.changedIn_of_flags rfl
  | index => exact registers.changedIn_setIndex _ _
  | sp =>
      intro part hpart
      cases part with
      | stackPointer => exact absurd (.head _) hpart
      | _ => rfl

theorem changedIn_accumulate (op : AccumulatorOp) :
    registers.ChangedIn op.parts (registers.accumulate op) := by
  cases op with
  | complement => exact registers.changedIn_of_carry rfl
  | _ => exact registers.changedIn_bank _

theorem changedIn_edit (edit : Edit) (value : Byte) :
    registers.ChangedIn edit.parts (registers.edit edit value).2 := by
  cases edit with
  | shift => exact registers.changedIn_bank _
  | increment | decrement => exact registers.changedIn_of_carry rfl
  | set | clear => exact registers.changedIn_of_flags rfl

theorem changedIn_arithmeticWord (op : WordOp) (target : WordRegister) (left right : Word) :
    registers.ChangedIn ([.flags, .carry] ++ target.parts)
      ((registers.arithmeticWord op left right).2.setWord target
        (registers.arithmeticWord op left right).1) :=
  (registers.changedIn_bank _).trans (changedIn_setWord _ _ _)

theorem changedIn_exchangeAccumulator :
    registers.ChangedIn [.flags, .carry, .shadowAccumulator] (registers.exchange .af) := by
  intro part hpart
  cases part with
  | flags => exact absurd (.head _) hpart
  | carry => exact absurd (.tail _ (.head _)) hpart
  | shadowAccumulator => exact absurd (.tail _ (.tail _ (.head _))) hpart
  | _ => rfl

theorem changedIn_exchangeBank : registers.ChangedIn [.shadowPairs] registers.exchangeBank := by
  intro part hpart
  cases part with
  | shadowPairs => exact absurd (.head _) hpart
  | _ => rfl

theorem changedIn_stackPointer (sp : Word) :
    registers.ChangedIn [.stackPointer] { registers with sp } :=
  registers.changedIn_setWord .sp sp

theorem changedIn_programCounter (pc : Word) :
    registers.ChangedIn [.programCounter] { registers with pc } := by
  intro part hpart
  cases part with
  | programCounter => exact absurd (.head _) hpart
  | _ => rfl

theorem changedIn_interruptPage (i : Byte) :
    registers.ChangedIn [.interruptPage] { registers with i } := by
  intro part hpart
  cases part with
  | interruptPage => exact absurd (.head _) hpart
  | _ => rfl

theorem changedIn_refresh (r : Byte) :
    registers.ChangedIn [.refresh] { registers with r } := by
  intro part hpart
  cases part with
  | refresh => exact absurd (.head _) hpart
  | _ => rfl

end Registers

/-! ## Instructions -/

/-- The parts that an operand has when a byte is stored in it. -/
def Operand.parts : Operand → List Part
  | .reg register => register.parts
  | _ => []

/-- The parts that a round of a block instruction changes. -/
def BlockOp.parts : BlockOp → List Part
  | .load | .compare => [.flags]
  | .input | .output => [.flags, .carry]

namespace Instruction

/-- The parts that an instruction changes whether or not it transfers control, apart from the
operand bytes that it passes. -/
def parts : Instruction → List Part
  | .load target _ | .loadByte target => target.parts
  | .storeSpecial .interruptPage => [.interruptPage]
  | .storeSpecial .refresh => [.refresh]
  | .loadWord target | .loadWordDirect target => target.parts
  | .loadStackPointer _ | .push _ => [.stackPointer]
  | .pop target => [.stackPointer] ++ target.parts
  | .exchangeAccumulator => [.flags, .carry, .shadowAccumulator]
  | .exchangeBank => [.shadowPairs]
  | .arithmetic _ _ | .arithmeticByte _ => [.flags, .carry]
  | .accumulate op => op.parts
  | .edit change target copy => change.parts ++ target.parts ++ copy.elim [] ByteRegister.parts
  | .loadSpecial _ | .testBit _ _ | .rotateDigit _ => [.flags]
  | .arithmeticWord _ target _ => [.flags, .carry] ++ target.parts
  | .exchangeTop register | .incrementWord register | .decrementWord register => register.parts
  | .input target => [.flags] ++ target.elim [] ByteRegister.parts
  | .block op _ _ => op.parts
  | _ => []

/-- The parts that an instruction changes besides where it transfers control. -/
def branchParts : Instruction → List Part
  | .jump | .jumpIf _ | .jumpRelative | .jumpRelativeIf _ | .jumpCounted | .jumpTo _ =>
      [.programCounter]
  | .call | .callIf _ | .restart _ | .ret | .retIf _ | .retNonMaskable | .retMaskable =>
      [.stackPointer, .programCounter]
  | .block _ _ true => [.programCounter]
  | _ => []

end Instruction

namespace Machine

/-- After a round of a block instruction there is more to do. -/
def blockGoesOn (machine : Machine) : BlockOp → Bool
  | .load => machine.registers.bc - 1 != 0
  | .compare =>
      machine.registers.bc - 1 != 0 && machine.registers.a != machine.read machine.registers.hl
  | .input | .output => machine.registers.getByte .b - 1 != 0

end Machine

/-- The instruction transfers control: it jumps, calls, returns or repeats. Those that depend on a
condition do so where it holds. -/
def Instruction.transfers (machine : Machine) : Instruction → Bool
  | .jump | .jumpRelative | .jumpTo _ | .call | .restart _ | .ret | .retNonMaskable
  | .retMaskable => true
  | .jumpIf condition | .jumpRelativeIf condition | .callIf condition | .retIf condition =>
      condition.holds machine.registers.flags
  | .jumpCounted => machine.registers.getByte .b - 1 != 0
  | .block op _ true => machine.blockGoesOn op
  | _ => false

/-- The parts that an instruction changes on a machine. -/
def Instruction.changes (machine : Machine) (instruction : Instruction) : List Part :=
  if instruction.transfers machine then instruction.parts ++ instruction.branchParts
  else instruction.parts

end Z80
