import Z80.Proofs.Indexed.Cell

/-!
# The memory forms on the index pages

An opcode on the page of an index register that has a displaced operand uses the displaced cell as
the opcode of the same number without leading bytes uses the cell at `HL` (`Entry.Displaces`). So it
does what that one does to a machine whose `HL` points at the displaced cell, except that it leaves
`HL` where it is, and stores and loads the halves that are really there (`refinesIndirect`).
-/

namespace Z80

/-- The opcodes on the page of an index register that have a displaced operand, each with its use of
the cell. -/
def Page.memoryForms : List (Byte × CellUse) :=
  [(0x34, .edit .increment), (0x35, .edit .decrement), (0x36, .storeNext),
    (0x46, .load .b), (0x4E, .load .c), (0x56, .load .d), (0x5E, .load .e),
    (0x66, .load .h), (0x6E, .load .l), (0x7E, .load .a),
    (0x70, .store .b), (0x71, .store .c), (0x72, .store .d), (0x73, .store .e),
    (0x74, .store .h), (0x75, .store .l), (0x77, .store .a),
    (0x86, .combine .add), (0x8E, .combine .addCarry),
    (0x96, .combine .subtract), (0x9E, .combine .subtractCarry),
    (0xA6, .combine .and), (0xAE, .combine .xor), (0xB6, .combine .or), (0xBE, .combine .compare)]

/-- The cycles that the use of a displaced cell takes more than that of the cell at `HL`. -/
def CellUse.extraCycles : CellUse → BitVec 32
  | .storeNext => 9
  | _ => 12

/-! ## Entries -/

/-- An entry that uses a displaced cell as another one uses the cell at `HL`, for more cycles. -/
structure Entry.Displaces (index : Index) (use : CellUse) (plain entry : Entry) : Prop where
  indirect : plain.instruction = use.instruction .indirect
  displaced : entry.instruction = use.instruction (.displaced index)
  spares : use.sparesIndex = true
  cost : entry.cost.cycles = plain.cost.cycles + use.extraCycles
  small : plain.cost.cycles.toNat + use.extraCycles.toNat < 0x100000000

/-- `Entry.Displaces` is decidable by comparing instructions and costs. -/
instance (index : Index) (use : CellUse) (plain entry : Entry) :
    Decidable (plain.Displaces index use entry) :=
  decidable_of_iff
    (plain.instruction = use.instruction .indirect ∧
      entry.instruction = use.instruction (.displaced index) ∧ use.sparesIndex = true ∧
      entry.cost.cycles = plain.cost.cycles + use.extraCycles ∧
      plain.cost.cycles.toNat + use.extraCycles.toNat < 0x100000000)
    ⟨fun ⟨indirect, displaced, spares, cost, small⟩ => ⟨indirect, displaced, spares, cost, small⟩,
      fun ⟨indirect, displaced, spares, cost, small⟩ => ⟨indirect, displaced, spares, cost, small⟩⟩

/-- Each memory form displaces the cell of the plain opcode with the same number. -/
theorem Page.displaces_memoryForms (index : Index) :
    ∀ form ∈ Page.memoryForms,
      ∃ entry ∈ Page.indexedEntry? index form.1, ∃ plain ∈ Page.unprefixedEntry? form.1,
        plain.Displaces index form.2 entry := by
  cases index <;> decide +kernel

theorem Page.mem_memoryForms_iff (index : Index) :
    ∀ opcode : Byte, opcode ∈ Page.memoryForms.map Prod.fst ↔
      ∃ entry ∈ Page.indexedEntry? index opcode,
        .displaced index ∈ entry.instruction.byteOperands := by
  cases index <;> decide +kernel

/-! ## Execution -/

namespace Machine

/-- The machine with `HL` pointing at the displaced cell and the displacement skipped. -/
def aimed (machine : Machine) (index : Index) : Machine :=
  machine.update fun registers =>
    { registers with
      hl := machine.cellAddress index (machine.read registers.pc)
      pc := registers.pc + 1 }

variable {machine : Machine} {index : Index} {use : CellUse} {plain entry : Entry}

/-- The plain entry acts on the cell at which `HL` points. -/
theorem perform_aimed (hindirect : plain.instruction = use.instruction .indirect) :
    (machine.aimed index).perform plain =
      use.act ((machine.aimed index).spend plain.cost.cycles)
        (machine.cellAddress index (machine.read machine.registers.pc)) := by
  rw [perform_eq, hindirect]
  exact execute_cellUse use rfl

/-- The entry with a displaced operand acts on the same cell, with `HL` where it was. -/
theorem perform_displaced (hdisplaces : plain.Displaces index use entry) :
    machine.perform entry =
      use.act
        (((machine.aimed index).spend plain.cost.cycles).beside machine.registers.hl
          use.extraCycles (machine.operands.record (machine.read machine.registers.pc)))
        (machine.cellAddress index (machine.read machine.registers.pc)) := by
  rw [perform_eq, hdisplaces.displaced, hdisplaces.cost, spend_add _ hdisplaces.small,
    ← displaced_eq_cellAddress]
  refine execute_cellUse use ?_
  -- Locating the operand reads the displacement, behind which the aimed machine stands already.
  cases index <;> rfl

end Machine

/-- How the use of a displaced cell compares with that of the cell at `HL`. `plain` is what the
plain opcode leaves of the machine with `HL` pointing at the cell, and `displaced` is what the
opcode on the page of the index register leaves of the machine itself. -/
structure RefinesAtCell (index : Index) (use : CellUse) (address : Word)
    (machine plain displaced : Machine) : Prop where
  /-- The memory is the same, except where a half of `HL` is stored. -/
  memory : use ≠ .store .h → use ≠ .store .l → displaced.memory = plain.memory
  storedHigh : use = .store .h →
    displaced.memory = machine.memory.write address (highByte machine.registers.hl)
  storedLow : use = .store .l →
    displaced.memory = machine.memory.write address (lowByte machine.registers.hl)
  /-- A stored byte of the instruction is the one behind the displacement. -/
  storedNext : use = .storeNext →
    displaced.memory = machine.memory.write address (machine.read (machine.registers.pc + 1))
  /-- Apart from `HL` the registers are the same. -/
  registers : displaced.registers = { plain.registers with hl := displaced.registers.hl }
  base : displaced.registers.index index = machine.registers.index index
  /-- `HL` stays as it is, except where one of its halves is loaded. -/
  hl : use ≠ .load .h → use ≠ .load .l → displaced.registers.hl = machine.registers.hl
  loadedHigh : use = .load .h →
    displaced.registers.hl = withHigh machine.registers.hl (machine.read address)
  loadedLow : use = .load .l →
    displaced.registers.hl = withLow machine.registers.hl (machine.read address)
  cycles : displaced.cycles = plain.cycles.spend use.extraCycles
  /-- The uses differ in nothing but this, the operands that they read and the log of writes. -/
  rest : displaced =
    { plain with
      registers := displaced.registers
      memory := displaced.memory
      cycles := displaced.cycles
      operands := displaced.operands
      log := displaced.log }

/-- An entry with a displaced operand refines the plain one on the machine aimed at its cell. -/
theorem Entry.Displaces.refinesAtCell {index : Index} {use : CellUse} {plain entry : Entry}
    (hdisplaces : plain.Displaces index use entry) (machine : Machine) :
    RefinesAtCell index use (machine.cellAddress index (machine.read machine.registers.pc)) machine
      ((machine.aimed index).perform plain) (machine.perform entry) := by
  rw [Machine.perform_displaced hdisplaces, Machine.perform_aimed hdisplaces.indirect]
  generalize machine.cellAddress index (machine.read machine.registers.pc) = address
  constructor
  case memory =>
    intro hhigh hlow
    exact Machine.memory_act_beside _ _ _ hhigh hlow
  case storedHigh | storedLow | storedNext =>
    rintro rfl
    rfl
  case registers => rw [Machine.registers_act_beside]
  case base =>
    rw [Machine.index_act index hdisplaces.spares]
    cases index <;> rfl
  case hl =>
    intro hhigh hlow
    rw [Machine.registers_act_beside, CellUse.pairAfter_eq hhigh hlow]
  case loadedHigh | loadedLow =>
    rintro rfl
    rfl
  case cycles =>
    rw [Machine.cycles_act, Machine.cycles_act]
    rfl
  case rest => exact Machine.rest_act_beside _ _ _

/-- The memory forms are the opcodes on an index register's page with a displaced operand. Each does
to every machine what the plain opcode does with `HL` pointing at the displaced cell, but for the
word in `HL` itself. -/
structure RefinesIndirect (index : Index) : Prop where
  forms : ∀ opcode : Byte, opcode ∈ Page.memoryForms.map Prod.fst ↔
    ∃ entry ∈ Page.indexedEntry? index opcode,
      .displaced index ∈ entry.instruction.byteOperands
  refines : ∀ opcode use, (opcode, use) ∈ Page.memoryForms →
    ∃ entry ∈ Page.indexedEntry? index opcode, ∃ plain ∈ Page.unprefixedEntry? opcode,
      ∀ machine : Machine,
        RefinesAtCell index use (machine.cellAddress index (machine.read machine.registers.pc))
          machine ((machine.aimed index).perform plain) (machine.perform entry)

/-- The memory forms on an index register's page refine the opcodes on the cell at `HL`. -/
theorem refinesIndirect (index : Index) : RefinesIndirect index where
  forms := Page.mem_memoryForms_iff index
  refines := by
    intro opcode use hform
    obtain ⟨entry, hentry, plain, hplain, hdisplaces⟩ :=
      Page.displaces_memoryForms index (opcode, use) hform
    exact ⟨entry, hentry, plain, hplain, hdisplaces.refinesAtCell⟩

end Z80
