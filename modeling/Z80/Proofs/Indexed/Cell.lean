import Z80.Proofs.Indexed.Registers

/-!
# What an instruction does to a cell

An instruction on one byte of memory first locates the cell and then acts on it. `CellUse` is what
it does there, and `execute_cellUse` says that the operand decides on nothing but the address. Which
word stands in `HL` meanwhile matters only to a use that loads or stores one of its halves: the
lemmas on `Machine.beside` say what a use does when `HL` holds something else.
-/

namespace Z80

/-- What an instruction does with the byte in a cell of memory. -/
inductive CellUse where
  /-- Changes the byte. -/
  | edit (edit : Edit)
  /-- Tests a bit of the byte. -/
  | test (position : BitPosition)
  /-- Combines the accumulator with the byte. -/
  | combine (op : AluOp)
  /-- Loads a register from the cell. -/
  | load (target : ByteRegister)
  /-- Stores a register in the cell. -/
  | store (source : ByteRegister)
  /-- Stores the next byte of the instruction in the cell. -/
  | storeNext
deriving DecidableEq

namespace CellUse

/-- The instruction that makes a use of the cell at an operand. -/
def instruction (use : CellUse) (operand : Operand) : Instruction :=
  match use with
  | .edit change => .edit change operand none
  | .test position => .testBit position operand
  | .combine op => .arithmetic op operand
  | .load target => .load (.reg target) operand
  | .store source => .load operand (.reg source)
  | .storeNext => .loadByte operand

/-- What a use does to a machine that has located the cell. -/
def act (use : CellUse) (machine : Machine) (address : Word) : Machine :=
  match use with
  | .edit change => (machine.edit change (.cell address)).2
  | .test position =>
      machine.update (·.testBit position (machine.read address) (highByte address))
  | .combine op => machine.update (·.arithmetic op (machine.read address))
  | .load target => machine.put (.reg target) (machine.read address)
  | .store source => machine.write address (machine.registers.getByte source)
  | .storeNext => machine.fetchOperand.2.write address machine.fetchOperand.1

/-- The word in `HL` after a use: a load may have replaced one of its halves. -/
def pairAfter (use : CellUse) (hl : Word) (value : Byte) : Word :=
  match use with
  | .load .h => withHigh hl value
  | .load .l => withLow hl value
  | _ => hl

theorem pairAfter_eq {use : CellUse} (hhigh : use ≠ .load .h) (hlow : use ≠ .load .l) (hl : Word)
    (value : Byte) : use.pairAfter hl value = hl := by
  cases use with
  | load target =>
      cases target with
      | h => exact absurd rfl hhigh
      | l => exact absurd rfl hlow
      | _ => rfl
  | _ => rfl

/-- True unless the use loads a half of an index register. -/
def sparesIndex : CellUse → Bool
  | .load (.indexHigh _) | .load (.indexLow _) => false
  | _ => true

end CellUse

namespace Machine

variable {machine : Machine} {use : CellUse} {address : Word}

/-- An instruction on a cell acts on it once the operand is located. -/
theorem execute_cellUse (use : CellUse) {operand : Operand} {located : Machine}
    (hlocate : machine.locate operand = (.cell address, located)) :
    machine.execute (use.instruction operand) = use.act located address := by
  cases use with
  | edit change | test position | combine op | storeNext =>
      simp only [CellUse.instruction, execute, hlocate]
      rfl
  | load target | store source =>
      simp only [CellUse.instruction, execute, hlocate, locate_reg]
      rfl

/-- Cycles may be spent one after the other, unless their sum wraps. -/
theorem spend_add (machine : Machine) {first second : BitVec 32}
    (hsum : first.toNat + second.toNat < 0x100000000) :
    machine.spend (first + second) = (machine.spend first).spend second := by
  unfold spend
  rw [Cycles.spend_spend _ hsum]

/-! ## Displaced cells -/

/-- The address at a two's-complement displacement from an index register. -/
def cellAddress (machine : Machine) (index : Index) (displacement : Byte) : Word :=
  BitVec.ofInt 16 ((machine.registers.index index).toNat + displacement.toInt)

theorem displaced_eq_cellAddress (machine : Machine) (index : Index) (displacement : Byte) :
    displaced (machine.registers.index index) displacement =
      machine.cellAddress index displacement := by
  rw [cellAddress, BitVec.ofInt_add, BitVec.ofInt_natCast, BitVec.ofNat_toNat, BitVec.setWidth_eq]
  rfl

/-! ## Another word in `HL` -/

/-- The machine with another word in `HL`, with a number of cycles spent besides and with other
operand bytes read. -/
def beside (machine : Machine) (hl : Word) (count : BitVec 32) (operands : OperandBytes) :
    Machine :=
  { machine with
    registers := { machine.registers with hl }
    cycles := machine.cycles.spend count
    operands }

variable (hl : Word) (count : BitVec 32) (operands : OperandBytes)

/-- A use leaves the other word in `HL`, except for a half that it loads. -/
theorem registers_act_beside :
    (use.act (machine.beside hl count operands) address).registers =
      { (use.act machine address).registers with
        hl := use.pairAfter hl (machine.read address) } := by
  cases use with
  | load target =>
      cases target with
      | indexHigh index | indexLow index => cases index <;> rfl
      | _ => rfl
  | _ => rfl

/-- A use writes the same, unless it stores a half of `HL`. -/
theorem memory_act_beside (hhigh : use ≠ .store .h) (hlow : use ≠ .store .l) :
    (use.act (machine.beside hl count operands) address).memory =
      (use.act machine address).memory := by
  cases use with
  | store source =>
      cases source with
      | h => exact absurd rfl hhigh
      | l => exact absurd rfl hlow
      | _ => rfl
  | _ => rfl

/-- A use changes nothing else. -/
theorem rest_act_beside :
    use.act (machine.beside hl count operands) address =
      { use.act machine address with
        registers := (use.act (machine.beside hl count operands) address).registers
        memory := (use.act (machine.beside hl count operands) address).memory
        cycles := (use.act (machine.beside hl count operands) address).cycles
        operands := (use.act (machine.beside hl count operands) address).operands
        log := (use.act (machine.beside hl count operands) address).log } := by
  cases use <;> rfl

theorem cycles_act : (use.act machine address).cycles = machine.cycles := by
  cases use <;> rfl

theorem index_act (index : Index) (hspares : use.sparesIndex = true) :
    (use.act machine address).registers.index index = machine.registers.index index := by
  cases use with
  | load target =>
      cases target with
      | indexHigh other | indexLow other => exact absurd hspares Bool.false_ne_true
      | _ => cases index <;> rfl
  | _ => cases index <;> rfl

end Machine

end Z80
