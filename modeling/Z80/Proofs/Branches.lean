import Z80.Code
import Z80.Proofs.Frame.Accesses

/-!
# Conditional transfers of control

A jump, a call, a relative jump and a return each have forms that look at a condition first. Where
the condition holds, the conditional form does what the unconditional one does, and where it does
not, only the operand bytes are passed (`branching`). The counted jump is a relative jump that
looks at `B` instead of a flag.
-/

namespace Z80

/-! ## Conditions -/

/-- The lowest bit of the field that selects a condition tells it from its complement. -/
theorem Condition.ofField_xor_one :
    ∀ field : Fin 8, ofField (field ^^^ 1) = (ofField field).complement := by
  decide

/-! ## The forms -/

/-- A transfer of control with conditional forms. -/
inductive Transfer where
  | jump
  | call
  | relativeJump
  | ret
deriving DecidableEq

namespace Transfer

/-- The opcode of the unconditional form. -/
def opcode : Transfer → Byte
  | .jump => 0xC3
  | .call => 0xCD
  | .relativeJump => 0x18
  | .ret => 0xC9

/-- The opcode of the form with the first condition. -/
def firstOpcode : Transfer → Byte
  | .jump => 0xC2
  | .call => 0xC4
  | .relativeJump => 0x20
  | .ret => 0xC0

/-- The number of conditions. Relative jumps look at the zero flag and the carry only. -/
def conditions : Transfer → Nat
  | .relativeJump => 4
  | _ => 8

/-- The opcode of the form with a given condition. -/
def opcodeIf (transfer : Transfer) (field : Fin 8) : Byte :=
  transfer.firstOpcode + BitVec.ofNat 8 (8 * field.val)

/-- The number of operand bytes. -/
def operandCount : Transfer → Nat
  | .jump | .call => 2
  | .relativeJump => 1
  | .ret => 0

/-- What the conditional form costs more than the unconditional one, where the condition holds. -/
def surcharge : Transfer → BitVec 32
  | .ret => 1
  | _ => 0

/-- What the conditional form costs where the condition does not hold. -/
def skippedCost : Transfer → BitVec 32
  | .jump | .call => 10
  | .relativeJump => 7
  | .ret => 5

/-- The instruction of the unconditional form. -/
def instruction : Transfer → Instruction
  | .jump => .jump
  | .call => .call
  | .relativeJump => .jumpRelative
  | .ret => .ret

/-- The instruction of a conditional form. -/
def instructionIf (condition : Condition) : Transfer → Instruction
  | .jump => .jumpIf condition
  | .call => .callIf condition
  | .relativeJump => .jumpRelativeIf condition
  | .ret => .retIf condition

/-- The cost of the unconditional form. -/
def cost : Transfer → BitVec 32
  | .jump | .ret => 10
  | .call => 17
  | .relativeJump => 12

/-- The cost of the conditional forms, as far as it is fixed. -/
def costIf : Transfer → Cost
  | .jump => .fixed 10
  | _ => .dynamic

theorem entry_opcode (transfer : Transfer) :
    ∃ entry ∈ Page.unprefixedEntry? transfer.opcode,
      entry.instruction = transfer.instruction ∧ entry.cost = .fixed transfer.cost := by
  cases transfer <;> decide +kernel

theorem entry_opcodeIf (transfer : Transfer) :
    ∀ field : Fin 8, field.val < transfer.conditions →
      ∃ entry ∈ Page.unprefixedEntry? (transfer.opcodeIf field),
        entry.instruction = transfer.instructionIf (.ofField field) ∧
          entry.cost = transfer.costIf := by
  cases transfer <;> decide +kernel

end Transfer

namespace Machine

variable (machine : Machine)

/-! ## Taken and skipped -/

@[simp] theorem spend_zero : machine.spend 0 = machine := by
  simp [spend, Cycles.spend]

/-- A transfer does not look at the cycles, so they can be spent before it or after it. -/
theorem execute_spend (transfer : Transfer) (count : BitVec 32) :
    (machine.spend count).execute transfer.instruction =
      (machine.execute transfer.instruction).spend count := by
  cases transfer with
  | jump | relativeJump => rfl
  | call =>
      simp only [Transfer.instruction, execute, call, push_eq]
      rfl
  | ret =>
      simp only [Transfer.instruction, execute, ret, pop_eq]
      rfl

variable {machine} {transfer : Transfer} {condition : Condition} {entry plain : Entry}

theorem perform_plain (hinstruction : plain.instruction = transfer.instruction)
    (hcost : plain.cost = .fixed transfer.cost) :
    machine.perform plain = (machine.execute transfer.instruction).spend transfer.cost := by
  unfold perform
  rw [hcost, hinstruction]
  exact machine.execute_spend transfer transfer.cost

/-- Where the condition holds, the conditional form transfers control as the other one does. -/
theorem perform_taken (hinstruction : entry.instruction = transfer.instructionIf condition)
    (hcost : entry.cost = transfer.costIf)
    (hholds : condition.holds machine.registers.flags = true) :
    machine.perform entry =
      ((machine.execute transfer.instruction).spend transfer.cost).spend transfer.surcharge := by
  unfold perform
  rw [hcost, hinstruction]
  cases transfer with
  | jump =>
      have htaken : (machine.spend 10).execute (.jumpIf condition) =
          (machine.spend 10).execute .jump := if_pos hholds
      exact htaken.trans (spend_zero _).symm
  | call =>
      -- The condition is looked at behind the operand, where the flags are the same.
      have htaken : condition.holds machine.fetchOperandWord.2.registers.flags = true := hholds
      refine Eq.trans ?_ (spend_zero _).symm
      simp only [Transfer.instructionIf, Transfer.costIf, execute, htaken]
      rfl
  | relativeJump =>
      refine Eq.trans ?_ (spend_zero _).symm
      simp only [Transfer.instructionIf, Transfer.costIf, execute, hholds]
      rfl
  | ret =>
      have htotal : machine.ret.spend (10 + 1) = (machine.ret.spend 10).spend 1 :=
        machine.ret.spend_add (by decide)
      simp only [Transfer.instructionIf, Transfer.costIf, execute, hholds]
      exact htotal

/-- Where it does not hold, the operand bytes are passed and nothing else is done. -/
theorem perform_skipped (hinstruction : entry.instruction = transfer.instructionIf condition)
    (hcost : entry.cost = transfer.costIf)
    (hfails : condition.holds machine.registers.flags = false) :
    machine.perform entry = (machine.past transfer.operandCount).spend transfer.skippedCost := by
  unfold perform
  rw [hcost, hinstruction]
  cases transfer with
  | jump =>
      simp only [Transfer.instructionIf, Transfer.costIf, execute, fetchOperandWord_eq]
      exact if_neg (Bool.eq_false_iff.1 hfails)
  | call =>
      have hskipped : condition.holds (machine.past 2).registers.flags = false := hfails
      simp only [Transfer.instructionIf, Transfer.costIf, execute, fetchOperandWord_eq, hskipped]
      rfl
  | relativeJump =>
      simp only [Transfer.instructionIf, Transfer.costIf, execute, hfails]
      rfl
  | ret =>
      simp only [Transfer.instructionIf, Transfer.costIf, execute, hfails]
      exact congrArg (spend · 5) machine.past_zero.symm

end Machine

/-! ## Relative branches -/

/-- The signed distance of a relative branch: 0 to 129 lead forward, and 130 to 255 back. -/
def branchDisplacement (offset : Byte) : Int :=
  if offset.toNat ≤ 129 then offset.toNat else offset.toNat - 256

theorem toNat_add_branchDistance (address : Word) (offset : Byte) :
    ((address + branchDistance offset).toNat : Int) =
      (address.toNat + branchDisplacement offset) % 0x10000 := by
  unfold branchDistance branchDisplacement
  split
  case isTrue => simp
  case isFalse =>
    simp
    omega

namespace Machine

/-- The machine with one taken from `B`. -/
def counted (machine : Machine) : Machine :=
  { machine with
    registers := { machine.registers with
      bc := withHigh machine.registers.bc (highByte machine.registers.bc - 1) } }

variable {machine : Machine}

theorem execute_jumpCounted_taken (htaken : highByte machine.counted.registers.bc ≠ 0) :
    machine.execute .jumpCounted = (machine.counted.execute .jumpRelative).spend 13 := by
  have hbranches : (machine.counted.registers.getByte .b != 0) = true := bne_iff_ne.2 htaken
  show machine.counted.branch .countedJump (machine.counted.registers.getByte .b != 0) = _
  rw [hbranches]
  rfl

theorem execute_jumpCounted_skipped (hskipped : highByte machine.counted.registers.bc = 0) :
    machine.execute .jumpCounted = (machine.counted.past 1).spend 8 := by
  have hpasses : (machine.counted.registers.getByte .b != 0) = false :=
    bne_eq_false_iff_eq.2 hskipped
  show machine.counted.branch .countedJump (machine.counted.registers.getByte .b != 0) = _
  rw [hpasses]
  rfl

theorem entry_jumpCounted :
    ∃ entry ∈ Page.unprefixedEntry? 0x10,
      entry.instruction = .jumpCounted ∧ entry.cost = .dynamic := by
  decide +kernel

/-! ## All of them -/

/-- What the entries that branch do, from any machine that stands behind their opcode. -/
structure Branching (machine : Machine) : Prop where
  /-- Of two conditions that differ in the lowest bit of their field exactly one holds. -/
  complementary : ∀ (field : Fin 8) (flags : Flags),
    (Condition.ofField (field ^^^ 1)).holds flags = !(Condition.ofField field).holds flags
  taken : ∀ (transfer : Transfer) (field : Fin 8), field.val < transfer.conditions →
    (Condition.ofField field).holds machine.registers.flags = true →
    ∃ entry ∈ Page.unprefixedEntry? (transfer.opcodeIf field),
      ∃ plain ∈ Page.unprefixedEntry? transfer.opcode,
        machine.perform entry = (machine.perform plain).spend transfer.surcharge
  skipped : ∀ (transfer : Transfer) (field : Fin 8), field.val < transfer.conditions →
    (Condition.ofField field).holds machine.registers.flags = false →
    ∃ entry ∈ Page.unprefixedEntry? (transfer.opcodeIf field),
      machine.perform entry =
        (machine.past transfer.operandCount).spend transfer.skippedCost
  /-- The counted jump goes on as a relative jump of 13 cycles while `B` is not zero. -/
  counted : highByte machine.counted.registers.bc ≠ 0 →
    ∃ entry ∈ Page.unprefixedEntry? 0x10, ∃ plain ∈ Page.unprefixedEntry? 0x18,
      machine.perform entry =
        { machine.counted.perform plain with cycles := machine.cycles.spend 13 }
  countedOut : highByte machine.counted.registers.bc = 0 →
    ∃ entry ∈ Page.unprefixedEntry? 0x10,
      machine.perform entry = (machine.counted.past 1).spend 8
  /-- From zero `B` goes round, so that the jump is taken. -/
  countedRound : highByte machine.registers.bc = 0 →
    highByte machine.counted.registers.bc = 0xFF
  /-- A relative jump counts from behind its operand and goes round at the ends of memory. -/
  relative : ∃ plain ∈ Page.unprefixedEntry? 0x18,
    ((machine.perform plain).registers.pc.toNat : Int) =
      ((machine.registers.pc + 1).toNat +
        branchDisplacement (machine.read machine.registers.pc)) % 0x10000

/-- Conditional transfers of control do what the unconditional ones do, or nothing. -/
theorem branching (machine : Machine) : machine.Branching where
  complementary field flags := by
    rw [Condition.ofField_xor_one, Condition.holds_complement]
  taken transfer field hfield hholds := by
    obtain ⟨entry, hentry, hinstruction, hcost⟩ := transfer.entry_opcodeIf field hfield
    obtain ⟨plain, hplain, hplainInstruction, hplainCost⟩ := transfer.entry_opcode
    refine ⟨entry, hentry, plain, hplain, ?_⟩
    rw [perform_taken hinstruction hcost hholds, perform_plain hplainInstruction hplainCost]
  skipped transfer field hfield hfails := by
    obtain ⟨entry, hentry, hinstruction, hcost⟩ := transfer.entry_opcodeIf field hfield
    exact ⟨entry, hentry, perform_skipped hinstruction hcost hfails⟩
  counted htaken := by
    obtain ⟨entry, hentry, hinstruction, hcost⟩ := entry_jumpCounted
    obtain ⟨plain, hplain, hplainInstruction, hplainCost⟩ := Transfer.relativeJump.entry_opcode
    refine ⟨entry, hentry, plain, hplain, ?_⟩
    rw [perform_plain hplainInstruction hplainCost, perform, hcost, hinstruction]
    exact execute_jumpCounted_taken htaken
  countedOut hskipped := by
    obtain ⟨entry, hentry, hinstruction, hcost⟩ := entry_jumpCounted
    refine ⟨entry, hentry, ?_⟩
    rw [perform, hcost, hinstruction]
    exact execute_jumpCounted_skipped hskipped
  countedRound hzero := by
    rw [counted, withHigh, highByte_joinBytes, hzero]
    rfl
  relative := by
    obtain ⟨plain, hplain, hinstruction, hcost⟩ := Transfer.relativeJump.entry_opcode
    refine ⟨plain, hplain, ?_⟩
    rw [perform_plain hinstruction hcost]
    exact toNat_add_branchDistance _ _

end Machine

end Z80
