import Z80.Proofs.Decode

/-!
# Reading the code

What stands behind the machine once it has read a code is the bytes that spell the code
(`Machine.fetchCode_fetches`). With a displacement first, the last two of them are operands. The
operands of the instruction follow, and together they are at most four bytes
(`Code.fullLength_bounds`), so that no operand byte is dropped (`Machine.Fetches.operands_fit`).
-/

namespace Z80

theorem Code.bytes_indexedBits (index : Index) (opcode displacement : Byte) :
    Code.bytes { page := .indexedBits index, opcode, displacement } =
      [index.leadByte, 0xCB, displacement, opcode] :=
  rfl

theorem Code.shownBytes_indexedBits (index : Index) (opcode displacement : Byte) :
    Code.shownBytes { page := .indexedBits index, opcode, displacement } =
      [index.leadByte, 0xCB] :=
  rfl

namespace Machine

/-- What reading a code comes to: the bytes that spell it are behind the machine, and those of them
that a trace does not show as the opcode are operands. -/
structure Fetches (start : Machine) (code : Code) (fetched : Machine) : Prop where
  memory : fetched.memory = start.memory
  pc : fetched.registers.pc = start.registers.pc + BitVec.ofNat 16 code.bytes.length
  spelled : start.memory.slice start.registers.pc code.bytes.length = code.bytes
  shown : code.shownBytes ++ fetched.operands.toList = code.bytes
  cycles : fetched.cycles = start.cycles
  log : fetched.log = start.log

variable {machine : Machine}

/-- An opcode behind the one leading byte of its page. -/
theorem fetchOpcode_fetches {page : Page} {lead : Byte} (hpage : page.leadBytes = [lead])
    (hplain : page.displacementFirst = false) (hlead : machine.read machine.registers.pc = lead)
    (hoperands : machine.operands = {}) :
    machine.Fetches ((machine.jump (machine.registers.pc + 1)).fetchOpcode page).1
      ((machine.jump (machine.registers.pc + 1)).fetchOpcode page).2 := by
  have hbytes : Code.bytes ((machine.jump (machine.registers.pc + 1)).fetchOpcode page).1 =
      [lead, machine.read (machine.registers.pc + 1)] := by
    simp only [fetchOpcode, fetch, Code.bytes, hplain, hpage]
    rfl
  have hshown : Code.shownBytes ((machine.jump (machine.registers.pc + 1)).fetchOpcode page).1 =
      [lead, machine.read (machine.registers.pc + 1)] := by
    simp only [fetchOpcode, fetch, Code.shownBytes, hplain, hpage]
    rfl
  exact
    { memory := rfl
      pc := by
        rw [hbytes]
        exact BitVec.add_assoc ..
      spelled := by
        rw [hbytes, ← hlead]
        rfl
      shown := by
        rw [hbytes, hshown]
        exact congrArg ([lead, _] ++ ·.toList) hoperands
      cycles := rfl
      log := rfl }

/-- An opcode behind the leading byte of an index register. -/
theorem fetchIndexedOpcode_fetches {index : Index}
    (hlead : machine.read machine.registers.pc = index.leadByte)
    (hoperands : machine.operands = {}) :
    machine.Fetches ((machine.jump (machine.registers.pc + 1)).fetchIndexedOpcode index).1
      ((machine.jump (machine.registers.pc + 1)).fetchIndexedOpcode index).2 := by
  by_cases hbits : machine.read (machine.registers.pc + 1) = 0xCB
  · -- The displacement and the opcode behind it are read as operands.
    have hfetched : (machine.jump (machine.registers.pc + 1)).fetchIndexedOpcode index =
        ({ page := .indexedBits index
           opcode := machine.read (machine.registers.pc + 1 + 1 + 1)
           displacement := machine.read (machine.registers.pc + 1 + 1) },
          (((machine.jump (machine.registers.pc + 1)).update
            (·.refresh 2)).fetch.2.fetchOperand.2).fetchOperand.2) :=
      if_pos hbits
    have hpc : machine.registers.pc + 1 + 1 + 1 + 1 = machine.registers.pc + 4 := by
      simp only [BitVec.add_assoc]
      rfl
    rw [hfetched]
    exact
      { memory := by simp only [fetchOperand, fetch, jump, update]
        pc := by
          rw [Code.bytes_indexedBits]
          exact hpc
        spelled := by
          rw [Code.bytes_indexedBits, ← hlead, ← hbits]
          rfl
        shown := by
          simp only [Code.bytes_indexedBits, Code.shownBytes_indexedBits, fetchOperand, fetch, jump,
            update, hoperands]
          rfl
        cycles := by simp only [fetchOperand, fetch, jump, update]
        log := by simp only [fetchOperand, fetch, jump, update] }
  · have hfetched : (machine.jump (machine.registers.pc + 1)).fetchIndexedOpcode index =
        (machine.jump (machine.registers.pc + 1)).fetchOpcode (.indexed index) :=
      if_neg hbits
    rw [hfetched]
    exact fetchOpcode_fetches rfl rfl hlead hoperands

theorem fetchCode_fetches (hoperands : machine.operands = {}) :
    machine.Fetches machine.fetchCode.1 machine.fetchCode.2 := by
  unfold fetchCode fetch
  dsimp only
  split
  · exact fetchOpcode_fetches rfl rfl ‹_› hoperands
  · split
    · exact fetchOpcode_fetches rfl rfl ‹_› hoperands
    · split
      · exact fetchIndexedOpcode_fetches ‹_› hoperands
      · split
        · exact fetchIndexedOpcode_fetches ‹_› hoperands
        · exact
            { memory := rfl
              pc := rfl
              spelled := rfl
              shown := congrArg ([_] ++ ·.toList) hoperands
              cycles := rfl
              log := rfl }

end Machine

/-! ## The length of an instruction -/

/-- The length of an instruction in bytes: those that spell its code, and its operands. -/
def Code.fullLength (code : Code) (entry : Entry) : Nat :=
  code.bytes.length + entry.instruction.operandCount

/-- No instruction has more than two operand bytes. -/
theorem Instruction.operandCount_le (instruction : Instruction) : instruction.operandCount ≤ 2 := by
  have hoperand (operand : Operand) : operand.operandCount ≤ 1 := by
    cases operand <;> simp [Operand.operandCount]
  cases instruction with
  | load target source => exact Nat.add_le_add (hoperand target) (hoperand source)
  | loadByte target => exact Nat.add_le_add_right (hoperand target) 1
  | arithmetic op source => exact Nat.le_succ_of_le (hoperand source)
  | edit edit target copy => exact Nat.le_succ_of_le (hoperand target)
  | testBit position source => exact Nat.le_succ_of_le (hoperand source)
  | _ => simp [operandCount]

/-- Where the displacement came before the opcode, no operand is left to read. -/
theorem Page.operandCount_bitInstruction_offset (index : Index) (displacement opcode : Byte)
    (copy : Option ByteRegister) :
    (Page.bitInstruction opcode (.offset index displacement) copy).operandCount = 0 := by
  unfold Page.bitInstruction
  split <;> rfl

theorem Code.fullLength_bounds {code : Code} {entry : Entry} (hentry : code.entry? = some entry) :
    1 ≤ code.fullLength entry ∧ code.fullLength entry ≤ 4 := by
  have hcount := entry.instruction.operandCount_le
  have hnonempty : 1 ≤ code.bytes.length := by
    unfold Code.bytes
    split <;> simp
  refine ⟨Nat.le_add_right_of_le hnonempty, ?_⟩
  unfold Code.fullLength
  obtain ⟨page, opcode, displacement⟩ := code
  cases page with
  | unprefixed => exact Nat.add_le_add (show 1 ≤ 2 by decide) hcount
  | bits | extended | indexed => exact Nat.add_le_add_left hcount 2
  | indexedBits index =>
      obtain rfl : Page.indexedBitsEntry index displacement opcode = entry := Option.some.inj hentry
      have hnone := Page.operandCount_bitInstruction_offset index displacement opcode
        (Operand.source opcode).register?
      simp [Page.indexedBitsEntry, hnone, Code.bytes_indexedBits]

/-- There is room for all operand bytes of an instruction of the set, those included that are read
with its code. -/
theorem Machine.Fetches.operands_fit {start fetched : Machine} {code : Code} {entry : Entry}
    (hfetches : start.Fetches code fetched) (hentry : code.entry? = some entry) :
    fetched.operands.toList.length + entry.instruction.operandCount ≤ 4 := by
  have hshown := congrArg List.length hfetches.shown
  have hfull := (Code.fullLength_bounds hentry).2
  rw [List.length_append] at hshown
  rw [Code.fullLength] at hfull
  omega

end Z80
