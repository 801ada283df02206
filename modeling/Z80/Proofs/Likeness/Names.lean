import Z80.Machine.Operand
import Z80.Instruction

/-!
# Exchanging the index registers

`Registers.across` exchanges the contents of the two index registers and `Instruction.across` their
names in an instruction. Both leave things as they are where nothing is to be exchanged, so that the
two cases can be treated as one.
-/

namespace Z80

variable {swapped : Bool}

/-- The index register that takes the place of another one. -/
def Index.across (swapped : Bool) : Index → Index
  | .ix => if swapped then .iy else .ix
  | .iy => if swapped then .ix else .iy

@[simp] theorem Index.across_false (index : Index) : index.across false = index := by
  cases index <;> rfl

@[simp] theorem Index.across_across (index : Index) :
    (index.across swapped).across swapped = index := by
  cases index <;> cases swapped <;> rfl

/-- Two index registers are one if their places are. -/
theorem Index.across_inj {left right : Index} :
    left.across swapped = right.across swapped ↔ left = right := by
  constructor
  · intro h
    rw [← left.across_across, h, across_across]
  · exact congrArg _

/-- The registers with the contents of the index registers exchanged. -/
def Registers.across (swapped : Bool) (registers : Registers) : Registers :=
  { registers with
    ix := registers.index (Index.ix.across swapped)
    iy := registers.index (Index.iy.across swapped) }

theorem Registers.index_across (registers : Registers) (index : Index) :
    (registers.across swapped).index (index.across swapped) = registers.index index := by
  cases index <;> cases swapped <;> rfl

/-- The register with the names of the index registers exchanged. -/
def ByteRegister.across (swapped : Bool) : ByteRegister → ByteRegister
  | .indexHigh index => .indexHigh (index.across swapped)
  | .indexLow index => .indexLow (index.across swapped)
  | register => register

@[simp] theorem ByteRegister.across_false (register : ByteRegister) :
    register.across false = register := by
  cases register <;> simp [across]

/-- The register with the names of the index registers exchanged. -/
def WordRegister.across (swapped : Bool) : WordRegister → WordRegister
  | .index other => .index (other.across swapped)
  | register => register

@[simp] theorem WordRegister.across_false (register : WordRegister) :
    register.across false = register := by
  cases register <;> simp [across]

/-- The operand with the names of the index registers exchanged. -/
def Operand.across (swapped : Bool) : Operand → Operand
  | .reg register => .reg (register.across swapped)
  | .indirect => .indirect
  | .displaced index => .displaced (index.across swapped)
  | .offset index displacement => .offset (index.across swapped) displacement

@[simp] theorem Operand.across_false (operand : Operand) : operand.across false = operand := by
  cases operand <;> simp [across]

/-- The place with the names of the index registers exchanged. -/
def Place.across (swapped : Bool) : Place → Place
  | .reg register => .reg (register.across swapped)
  | .cell address => .cell address

/-- The instruction with the names of the index registers exchanged. -/
def Instruction.across (swapped : Bool) : Instruction → Instruction
  | .load target source => .load (target.across swapped) (source.across swapped)
  | .loadByte target => .loadByte (target.across swapped)
  | .loadThrough pointer => .loadThrough (pointer.across swapped)
  | .storeThrough pointer => .storeThrough (pointer.across swapped)
  | .loadWord target => .loadWord (target.across swapped)
  | .loadWordDirect target => .loadWordDirect (target.across swapped)
  | .storeWordDirect source => .storeWordDirect (source.across swapped)
  | .loadStackPointer source => .loadStackPointer (source.across swapped)
  | .push source => .push (source.across swapped)
  | .pop target => .pop (target.across swapped)
  | .exchangeTop register => .exchangeTop (register.across swapped)
  | .arithmetic op source => .arithmetic op (source.across swapped)
  | .edit change target copy =>
      .edit change (target.across swapped) (copy.map (·.across swapped))
  | .testBit position source => .testBit position (source.across swapped)
  | .arithmeticWord op target source =>
      .arithmeticWord op (target.across swapped) (source.across swapped)
  | .incrementWord register => .incrementWord (register.across swapped)
  | .decrementWord register => .decrementWord (register.across swapped)
  | .jumpTo register => .jumpTo (register.across swapped)
  | .input target => .input (target.map (·.across swapped))
  | .output source => .output (source.map (·.across swapped))
  | instruction => instruction

@[simp] theorem Instruction.across_false (instruction : Instruction) :
    instruction.across false = instruction := by
  cases instruction with
  | edit change target copy => cases copy <;> simp [across]
  | input target => cases target <;> simp [across]
  | output source => cases source <;> simp [across]
  | _ => simp [across]

end Z80
