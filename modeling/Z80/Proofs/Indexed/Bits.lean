import Z80.Proofs.Indexed.Cell

/-!
# The bit operations on the index pages

On an index register's page of bit operations every opcode does to the displaced cell what the
opcode with the same quadrant and row does to the cell at `HL`, and unless it only tests a bit it
copies what it stores there to the register in its column (`refinesBitOperation`).
-/

namespace Z80

namespace Opcode

/-- The opcode of the same bit operation on the cell at `HL`. -/
def atCell (opcode : Byte) : Byte :=
  (opcode &&& 0xF8) ||| 6

/-- The register that receives what a bit operation on a displaced cell stores. A bit test stores
nothing, and one of the columns names no register. -/
def receiver? (opcode : Byte) : Option ByteRegister :=
  if 0x40 ≤ opcode ∧ opcode ≤ 0x7F then none
  else
    match column opcode with
    | 0 => some .b
    | 1 => some .c
    | 2 => some .d
    | 3 => some .e
    | 4 => some .h
    | 5 => some .l
    | 6 => none
    | 7 => some .a

/-! ## Fields -/

/-- Only the column of an opcode tells the operand. -/
theorem getLsbD_atCell (opcode : Byte) {place : Nat} (hplace : 3 ≤ place) :
    (atCell opcode).getLsbD place = opcode.getLsbD place := by
  by_cases hwidth : place < 8
  · have hmask : ∀ place < 8, 3 ≤ place →
        (0xF8 : Byte).getLsbD place = true ∧ (6 : Byte).getLsbD place = false := by decide
    obtain ⟨hkept, hcleared⟩ := hmask place hwidth hplace
    rw [atCell, BitVec.getLsbD_or, BitVec.getLsbD_and, hkept, hcleared, Bool.and_true,
      Bool.or_false]
  · rw [BitVec.getLsbD_of_ge _ _ (by omega), BitVec.getLsbD_of_ge _ _ (by omega)]

theorem quadrant_atCell (opcode : Byte) : quadrant (atCell opcode) = quadrant opcode := by
  unfold quadrant
  congr 1
  ext place hplace
  simp only [BitVec.getElem_extractLsb']
  exact getLsbD_atCell opcode (by omega)

theorem row_atCell (opcode : Byte) : row (atCell opcode) = row opcode := by
  unfold row
  congr 1
  ext place hplace
  simp only [BitVec.getElem_extractLsb']
  exact getLsbD_atCell opcode (by omega)

theorem source_atCell (opcode : Byte) : Operand.source (atCell opcode) = .indirect := by
  have hcolumn : column (atCell opcode) = 6 := by
    have hmask : (0xF8 : Byte).extractLsb' 0 3 = 0#3 := by decide
    rw [column, atCell, BitVec.extractLsb'_or, BitVec.extractLsb'_and, hmask, BitVec.and_zero]
    rfl
  rw [Operand.source, hcolumn]
  rfl

/-- The tests are the second quadrant. -/
theorem quadrant_eq_one_iff :
    ∀ opcode : Byte, quadrant opcode = 1 ↔ 0x40 ≤ opcode ∧ opcode ≤ 0x7F := by
  decide +kernel

theorem receiver?_eq (opcode : Byte) :
    receiver? opcode =
      if quadrant opcode = 1 then none else (Operand.source opcode).register? := by
  have hcolumn : ∀ field : Fin 8,
      (match field with
        | 0 => some .b
        | 1 => some .c
        | 2 => some .d
        | 3 => some .e
        | 4 => some .h
        | 5 => some .l
        | 6 => none
        | 7 => some .a) = (Operand.ofField field).register? := by decide
  simp only [receiver?, Operand.source, quadrant_eq_one_iff, hcolumn]

end Opcode

theorem Registers.flags_setByte (registers : Registers) (register : ByteRegister) (value : Byte) :
    (registers.setByte register value).flags = registers.flags := by
  cases register with
  | indexHigh index | indexLow index => cases index <;> rfl
  | _ => rfl

/-! ## Instructions -/

namespace Page

/-- The use that a bit operation makes of its cell. -/
def bitUse (opcode : Byte) : CellUse :=
  match Opcode.quadrant opcode with
  | 0 => .edit (.shift (Shift.ofField (Opcode.row opcode)))
  | 1 => .test (Opcode.row opcode)
  | 2 => .edit (.clear (Opcode.row opcode))
  | 3 => .edit (.set (Opcode.row opcode))

theorem bitUse_atCell (opcode : Byte) : bitUse (Opcode.atCell opcode) = bitUse opcode := by
  rw [bitUse, bitUse, Opcode.quadrant_atCell, Opcode.row_atCell]

/-- A bit operation either tests a bit or edits its cell. -/
theorem bitInstruction_cases (opcode : Byte) :
    (Opcode.quadrant opcode = 1 ∧ bitUse opcode = .test (Opcode.row opcode) ∧
      ∀ target copy, bitInstruction opcode target copy = .testBit (Opcode.row opcode) target) ∨
    (Opcode.quadrant opcode ≠ 1 ∧ ∃ change, bitUse opcode = .edit change ∧
      ∀ target copy, bitInstruction opcode target copy = .edit change target copy) := by
  unfold bitInstruction bitUse
  match Opcode.quadrant opcode with
  | 0 => exact .inr ⟨by decide, _, rfl, fun _ _ => rfl⟩
  | 1 => exact .inl ⟨rfl, rfl, fun _ _ => rfl⟩
  | 2 => exact .inr ⟨by decide, _, rfl, fun _ _ => rfl⟩
  | 3 => exact .inr ⟨by decide, _, rfl, fun _ _ => rfl⟩

/-- A bit operation without a copy is its use of the cell. -/
theorem bitInstruction_none (opcode : Byte) (target : Operand) :
    bitInstruction opcode target none = (bitUse opcode).instruction target := by
  obtain ⟨-, huse, htest⟩ | ⟨-, change, huse, hedit⟩ := bitInstruction_cases opcode
  · rw [htest, huse]
    rfl
  · rw [hedit, huse]
    rfl

/-- The displacement costs eight cycles. -/
theorem cycles_indexedBitsEntry (index : Index) (displacement opcode : Byte) :
    (indexedBitsEntry index displacement opcode).cost.cycles =
      (bitsEntry (Opcode.atCell opcode)).cost.cycles + 8 := by
  simp only [indexedBitsEntry, bitsEntry, Opcode.source_atCell, bitMemoryCost,
    Opcode.quadrant_atCell]
  split <;> rfl

theorem toNat_cycles_bitsEntry (opcode : Byte) :
    (bitsEntry (Opcode.atCell opcode)).cost.cycles.toNat ≤ 15 := by
  simp only [bitsEntry, Opcode.source_atCell, bitMemoryCost]
  split <;> decide

end Page

namespace Machine

variable {machine located : Machine} {target : Operand} {address : Word}

/-- Copies the byte in a cell to a register, if one receives it. -/
def copyCell (machine : Machine) (receiver : Option ByteRegister) (address : Word) : Machine :=
  match receiver with
  | none => machine
  | some register => machine.put (.reg register) (machine.read address)

/-- An edit of a cell with a copy puts into the register what stands in the cell then. -/
theorem execute_edit_copy (change : Edit) (copy : Option ByteRegister)
    (hlocate : machine.locate target = (.cell address, located)) :
    machine.execute (.edit change target copy) =
      ((CellUse.edit change).act located address).copyCell copy address := by
  cases copy with
  | none => exact execute_cellUse (.edit change) hlocate
  | some register =>
      have hstored : (located.edit change (.cell address)).2.read address =
          (located.edit change (.cell address)).1 :=
        Memory.read_write_same ..
      simp only [execute, hlocate, CellUse.act, copyCell, hstored]

/-- A bit operation with a copy acts on the cell and copies to the receiving register. -/
theorem execute_bitInstruction (opcode : Byte)
    (hlocate : machine.locate target = (.cell address, located)) :
    machine.execute (Page.bitInstruction opcode target (Operand.source opcode).register?) =
      ((Page.bitUse opcode).act located address).copyCell (Opcode.receiver? opcode) address := by
  rw [Opcode.receiver?_eq]
  obtain ⟨hquadrant, huse, htest⟩ | ⟨hquadrant, change, huse, hedit⟩ :=
    Page.bitInstruction_cases opcode
  · rw [htest, huse, if_pos hquadrant]
    exact execute_cellUse (.test (Opcode.row opcode)) hlocate
  · rw [hedit, huse, if_neg hquadrant]
    exact execute_edit_copy change _ hlocate

/-- A bit operation changes no register but the flags. -/
theorem registers_act_bitUse (opcode : Byte) (machine : Machine) (address : Word) :
    ((Page.bitUse opcode).act machine address).registers =
      { machine.registers with
        flags := ((Page.bitUse opcode).act machine address).registers.flags } := by
  obtain ⟨-, huse, -⟩ | ⟨-, change, huse, -⟩ := Page.bitInstruction_cases opcode
  · rw [huse]
    rfl
  · rw [huse]
    rfl

/-- A bit operation on a located cell neither looks at `HL` nor changes it. -/
theorem act_bitUse_beside (opcode : Byte) (machine : Machine) (address hl : Word)
    (count : BitVec 32) (operands : OperandBytes) :
    (Page.bitUse opcode).act (machine.beside hl count operands) address =
      ((Page.bitUse opcode).act machine address).beside hl count operands := by
  obtain ⟨-, huse, -⟩ | ⟨-, change, huse, -⟩ := Page.bitInstruction_cases opcode
  · rw [huse]
    rfl
  · rw [huse]
    rfl

/-- The machine with `HL` pointing at a cell. -/
def pointed (machine : Machine) (address : Word) : Machine :=
  machine.update fun registers => { registers with hl := address }

/-- The plain bit operation acts on the cell at which `HL` points. -/
theorem perform_pointed (machine : Machine) (opcode : Byte) (address : Word) :
    (machine.pointed address).perform (Page.bitsEntry (Opcode.atCell opcode)) =
      (Page.bitUse opcode).act
        ((machine.pointed address).spend
          (Page.bitsEntry (Opcode.atCell opcode)).cost.cycles) address := by
  rw [perform_eq, Page.bitsEntry, Opcode.source_atCell, Page.bitInstruction_none,
    Page.bitUse_atCell]
  exact execute_cellUse (Page.bitUse opcode) rfl

theorem registers_perform_pointed (machine : Machine) (opcode : Byte) (address : Word) :
    { ((machine.pointed address).perform (Page.bitsEntry (Opcode.atCell opcode))).registers with
        hl := machine.registers.hl } =
      { machine.registers with
        flags := ((machine.pointed address).perform
          (Page.bitsEntry (Opcode.atCell opcode))).registers.flags } := by
  rw [perform_pointed, registers_act_bitUse]
  rfl

/-- The bit operation on a displaced cell does the same beside it, and then copies. -/
theorem perform_indexedBits (machine : Machine) (index : Index) (displacement opcode : Byte) :
    machine.perform (Page.indexedBitsEntry index displacement opcode) =
      (((machine.pointed (machine.cellAddress index displacement)).perform
        (Page.bitsEntry (Opcode.atCell opcode))).beside
          machine.registers.hl 8 machine.operands).copyCell
        (Opcode.receiver? opcode) (machine.cellAddress index displacement) := by
  have hsmall := Page.toNat_cycles_bitsEntry opcode
  have hlocate (machine : Machine) : machine.locate (.offset index displacement) =
      (.cell (machine.cellAddress index displacement), machine) := by
    rw [← displaced_eq_cellAddress]
    rfl
  rw [perform_eq, Page.cycles_indexedBitsEntry, Page.indexedBitsEntry,
    execute_bitInstruction opcode (hlocate _), perform_pointed, ← act_bitUse_beside,
    spend_add _ (show _ + 8 < _ by omega)]
  rfl

end Machine

/-- How a bit operation on a displaced cell compares with that on the cell at `HL`. `plain` is what
the plain bit operation leaves of the machine with `HL` pointing at the cell, and `indexed` is what
the opcode on the page of the index register leaves of the machine itself. -/
structure RefinesBitOperation (opcode : Byte) (address : Word) (machine plain indexed : Machine) :
    Prop where
  memory : indexed.memory = plain.memory
  flags : indexed.registers.flags = plain.registers.flags
  cycles : indexed.cycles = plain.cycles.spend 8
  /-- Without a receiving register every register but the flags stays as it is. -/
  kept : Opcode.receiver? opcode = none →
    indexed.registers = { machine.registers with flags := plain.registers.flags }
  /-- A receiving register ends equal to the byte in the cell, and every other one stays. -/
  received : ∀ register, Opcode.receiver? opcode = some register →
    indexed.registers =
      { machine.registers with flags := plain.registers.flags }.setByte register
        (indexed.read address)
  /-- The operations differ in nothing else, and read no byte behind the opcode. -/
  rest : indexed =
    { plain with
      registers := indexed.registers
      cycles := indexed.cycles
      operands := machine.operands }

/-- A bit operation on a displaced cell refines that on the cell at `HL`. -/
theorem refinesBitOperation (index : Index) (displacement opcode : Byte) (machine : Machine) :
    RefinesBitOperation opcode (machine.cellAddress index displacement) machine
      ((machine.pointed (machine.cellAddress index displacement)).perform
        (Page.bitsEntry (Opcode.atCell opcode)))
      (machine.perform (Page.indexedBitsEntry index displacement opcode)) := by
  have hkept := machine.registers_perform_pointed opcode
    (machine.cellAddress index displacement)
  rw [Machine.perform_indexedBits]
  generalize machine.cellAddress index displacement = address at hkept ⊢
  generalize (machine.pointed address).perform (Page.bitsEntry (Opcode.atCell opcode)) = plain
    at hkept ⊢
  cases hreceiver : Opcode.receiver? opcode with
  | none =>
      exact
        { memory := rfl
          flags := rfl
          cycles := rfl
          kept := fun _ => hkept
          received := by
            intro register hregister
            exact absurd (hreceiver.symm.trans hregister) nofun
          rest := rfl }
  | some target =>
      exact
        { memory := rfl
          flags := Registers.flags_setByte _ target _
          cycles := rfl
          kept := by
            intro hnone
            exact absurd (hreceiver.symm.trans hnone) nofun
          received := by
            intro register hregister
            obtain rfl : target = register := Option.some.inj (hreceiver.symm.trans hregister)
            rw [← hkept]
            rfl
          rest := rfl }

end Z80
