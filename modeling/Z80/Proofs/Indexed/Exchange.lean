import Z80.Machine.Execute

/-!
# Exchanging `HL` with an index register

An instruction that refers to its registers by name alone does the same to a machine whose `HL` and
index register are exchanged as the instruction with the two names exchanged does to the machine
itself (`execute_reindex`). The exchange passes through each operation of the machine in turn.
-/

namespace Z80

/-! ## Names -/

/-- The register that holds the same byte once `HL` and an index register are exchanged. -/
def ByteRegister.exchanged (index : Index) : ByteRegister → ByteRegister
  | .h => .indexHigh index
  | .l => .indexLow index
  | .indexHigh other => if other = index then .h else .indexHigh other
  | .indexLow other => if other = index then .l else .indexLow other
  | register => register

/-- The register that holds the same word once `HL` and an index register are exchanged. -/
def WordRegister.exchanged (index : Index) : WordRegister → WordRegister
  | .pair .hl => .index index
  | .index other => if other = index then .pair .hl else .index other
  | register => register

/-- The operand with the registers exchanged, if it is one. -/
def Operand.exchanged (index : Index) : Operand → Operand
  | .reg register => .reg (register.exchanged index)
  | operand => operand

namespace Instruction

/-- The operands of an instruction that hold a byte. -/
def byteOperands : Instruction → List Operand
  | .load target source => [target, source]
  | .loadByte target => [target]
  | .arithmetic _ source => [source]
  | .edit _ target _ => [target]
  | .testBit _ source => [source]
  | _ => []

/-- True for an instruction that refers to `HL` and the index registers by name alone, not as the
address of an operand or as its own fixed operands. -/
def namesRegisters : Instruction → Bool
  | .exchangeBank | .exchangeData | .rotateDigit _ | .block .. => false
  | instruction => instruction.byteOperands.all fun operand => operand.register?.isSome

/-- The instruction with the names of `HL` and an index register exchanged. -/
def exchanged (index : Index) : Instruction → Instruction
  | .load target source => .load (target.exchanged index) (source.exchanged index)
  | .loadByte target => .loadByte (target.exchanged index)
  | .loadThrough pointer => .loadThrough (pointer.exchanged index)
  | .storeThrough pointer => .storeThrough (pointer.exchanged index)
  | .loadWord target => .loadWord (target.exchanged index)
  | .loadWordDirect target => .loadWordDirect (target.exchanged index)
  | .storeWordDirect source => .storeWordDirect (source.exchanged index)
  | .loadStackPointer source => .loadStackPointer (source.exchanged index)
  | .push source => .push (source.exchanged index)
  | .pop target => .pop (target.exchanged index)
  | .exchangeTop register => .exchangeTop (register.exchanged index)
  | .arithmetic op source => .arithmetic op (source.exchanged index)
  | .edit change target copy =>
      .edit change (target.exchanged index) (copy.map (·.exchanged index))
  | .testBit position source => .testBit position (source.exchanged index)
  | .arithmeticWord op target source =>
      .arithmeticWord op (target.exchanged index) (source.exchanged index)
  | .incrementWord register => .incrementWord (register.exchanged index)
  | .decrementWord register => .decrementWord (register.exchanged index)
  | .jumpTo register => .jumpTo (register.exchanged index)
  | .input target => .input (target.map (·.exchanged index))
  | .output source => .output (source.map (·.exchanged index))
  | instruction => instruction

theorem exists_register {instruction : Instruction} (hnames : instruction.namesRegisters) :
    ∀ operand ∈ instruction.byteOperands, ∃ register, operand = .reg register := by
  intro operand hoperand
  have hregister : operand.register?.isSome := by
    cases instruction with
    | exchangeBank | exchangeData | rotateDigit | block => exact absurd hnames Bool.false_ne_true
    | _ => exact List.all_eq_true.1 hnames operand hoperand
  cases operand with
  | reg register => exact ⟨register, rfl⟩
  | _ => exact absurd hregister Bool.false_ne_true

end Instruction

/-! ## Registers -/

namespace Registers

/-- The registers with the contents of `HL` and an index register exchanged. -/
def exchangeIndex (registers : Registers) (index : Index) : Registers :=
  { registers with hl := registers.index index }.setIndex index registers.hl

variable (registers : Registers) (index : Index)

@[simp] theorem exchangeIndex_exchangeIndex :
    (registers.exchangeIndex index).exchangeIndex index = registers := by
  cases index <;> rfl

/-! ### Registers that the exchange leaves alone -/

@[simp] theorem a_exchangeIndex : (registers.exchangeIndex index).a = registers.a := by
  cases index <;> rfl

@[simp] theorem flags_exchangeIndex : (registers.exchangeIndex index).flags = registers.flags := by
  cases index <;> rfl

@[simp] theorem bc_exchangeIndex : (registers.exchangeIndex index).bc = registers.bc := by
  cases index <;> rfl

@[simp] theorem sp_exchangeIndex : (registers.exchangeIndex index).sp = registers.sp := by
  cases index <;> rfl

@[simp] theorem pc_exchangeIndex : (registers.exchangeIndex index).pc = registers.pc := by
  cases index <;> rfl

/-! ### Access by name -/

@[simp] theorem getByte_exchangeIndex (register : ByteRegister) :
    (registers.exchangeIndex index).getByte (register.exchanged index) =
      registers.getByte register := by
  cases register with
  | indexHigh other | indexLow other => cases index <;> cases other <;> rfl
  | _ => cases index <;> rfl

@[simp] theorem setByte_exchangeIndex (register : ByteRegister) (value : Byte) :
    (registers.exchangeIndex index).setByte (register.exchanged index) value =
      (registers.setByte register value).exchangeIndex index := by
  cases register with
  | indexHigh other | indexLow other => cases index <;> cases other <;> rfl
  | _ => cases index <;> rfl

@[simp] theorem getWord_exchangeIndex (register : WordRegister) :
    (registers.exchangeIndex index).getWord (register.exchanged index) =
      registers.getWord register := by
  cases register with
  | pair pair => cases index <;> cases pair <;> rfl
  | index other => cases index <;> cases other <;> rfl
  | sp => cases index <;> rfl

@[simp] theorem setWord_exchangeIndex (register : WordRegister) (value : Word) :
    (registers.exchangeIndex index).setWord (register.exchanged index) value =
      (registers.setWord register value).exchangeIndex index := by
  cases register with
  | pair pair => cases index <;> cases pair <;> rfl
  | index other => cases index <;> cases other <;> rfl
  | sp => cases index <;> rfl

/-! ### Arithmetic -/

@[simp] theorem arithmetic_exchangeIndex (op : AluOp) (operand : Byte) :
    (registers.exchangeIndex index).arithmetic op operand =
      (registers.arithmetic op operand).exchangeIndex index := by
  cases index <;> rfl

@[simp] theorem accumulate_exchangeIndex (op : AccumulatorOp) :
    (registers.exchangeIndex index).accumulate op =
      (registers.accumulate op).exchangeIndex index := by
  cases index <;> rfl

@[simp] theorem edit_exchangeIndex (edit : Edit) (value : Byte) :
    (registers.exchangeIndex index).edit edit value =
      ((registers.edit edit value).1, (registers.edit edit value).2.exchangeIndex index) := by
  cases index <;> rfl

@[simp] theorem testBit_exchangeIndex (position : BitPosition) (value source : Byte) :
    (registers.exchangeIndex index).testBit position value source =
      (registers.testBit position value source).exchangeIndex index := by
  cases index <;> rfl

@[simp] theorem arithmeticWord_exchangeIndex (op : WordOp) (left right : Word) :
    (registers.exchangeIndex index).arithmeticWord op left right =
      ((registers.arithmeticWord op left right).1,
        (registers.arithmeticWord op left right).2.exchangeIndex index) := by
  cases index <;> rfl

@[simp] theorem incrementWord_exchangeIndex (register : WordRegister) :
    (registers.exchangeIndex index).incrementWord (register.exchanged index) =
      (registers.incrementWord register).exchangeIndex index := by
  simp [incrementWord]

@[simp] theorem decrementWord_exchangeIndex (register : WordRegister) :
    (registers.exchangeIndex index).decrementWord (register.exchanged index) =
      (registers.decrementWord register).exchangeIndex index := by
  simp [decrementWord]

end Registers

/-! ## The machine -/

theorem Cycles.spend_right_comm (cycles : Cycles) (first second : BitVec 32) :
    (cycles.spend first).spend second = (cycles.spend second).spend first := by
  unfold spend
  rw [Cycles.mk.injEq]
  exact ⟨by dsimp only; ac_rfl, by dsimp only; ac_rfl⟩

namespace Machine

/-- The machine with `HL` and an index register exchanged. -/
def exchangeIndex (machine : Machine) (index : Index) : Machine :=
  machine.update (·.exchangeIndex index)

/-- The machine with the registers exchanged and a number of cycles spent besides. -/
def reindex (machine : Machine) (index : Index) (count : BitVec 32) : Machine :=
  (machine.exchangeIndex index).spend count

variable (machine : Machine) (index : Index) (count : BitVec 32)

@[simp] theorem registers_reindex :
    (machine.reindex index count).registers = machine.registers.exchangeIndex index :=
  rfl

@[simp] theorem window_reindex : (machine.reindex index count).window = machine.window :=
  rfl

@[simp] theorem report_reindex (fault : Option Fault) :
    (machine.reindex index count).report fault =
      (machine.report fault).reindex index count := by
  cases fault <;> rfl

/-- A change of the registers passes through the exchange if it does so on the registers. -/
theorem update_reindex (change changed : Registers → Registers)
    (hchange : changed (machine.registers.exchangeIndex index) =
      (change machine.registers).exchangeIndex index) :
    (machine.reindex index count).update changed = (machine.update change).reindex index count := by
  unfold update
  rw [registers_reindex, hchange]
  rfl

@[simp] theorem spend_reindex (cycles : BitVec 32) :
    (machine.reindex index count).spend cycles = (machine.spend cycles).reindex index count := by
  unfold reindex spend
  rw [Cycles.spend_right_comm]
  rfl

@[simp] theorem spendBranch_reindex (cost : BranchCost) (taken : Bool) :
    (machine.reindex index count).spendBranch cost taken =
      (machine.spendBranch cost taken).reindex index count :=
  machine.spend_reindex index count (cost.choose taken)

@[simp] theorem jump_reindex (address : Word) :
    (machine.reindex index count).jump address = (machine.jump address).reindex index count := by
  cases index <;> rfl

@[simp] theorem read_reindex (address : Word) :
    (machine.reindex index count).read address = machine.read address :=
  rfl

@[simp] theorem readWord_reindex (address : Word) :
    (machine.reindex index count).readWord address = machine.readWord address :=
  rfl

@[simp] theorem write_reindex (address : Word) (value : Byte) :
    (machine.reindex index count).write address value =
      (machine.write address value).reindex index count :=
  rfl

@[simp] theorem writeWord_reindex (address value : Word) :
    (machine.reindex index count).writeWord address value =
      (machine.writeWord address value).reindex index count :=
  rfl

@[simp] theorem updateInterrupts_reindex (change : Interrupts → Interrupts) :
    (machine.reindex index count).updateInterrupts change =
      (machine.updateInterrupts change).reindex index count :=
  rfl

@[simp] theorem updateLines_reindex (change : Lines → Lines) :
    (machine.reindex index count).updateLines change =
      (machine.updateLines change).reindex index count :=
  rfl

@[simp] theorem update_setWord_reindex (register : WordRegister) (value : Word) :
    ((machine.reindex index count).update (·.setWord (register.exchanged index) value)) =
      (machine.update (·.setWord register value)).reindex index count :=
  machine.update_reindex index count (·.setWord register value)
    (·.setWord (register.exchanged index) value) (by simp)

@[simp] theorem send_reindex (device : Word) (value : Byte) :
    (machine.reindex index count).send device value =
      (machine.send device value).reindex index count :=
  rfl

@[simp] theorem ite_reindex (condition : Bool) (other : Machine) :
    (if condition then machine.reindex index count else other.reindex index count) =
      (if condition then machine else other).reindex index count := by
  cases condition <;> rfl

@[simp] theorem receive_reindex (device : Word) :
    (machine.reindex index count).receive device =
      ((machine.receive device).1, (machine.receive device).2.reindex index count) :=
  rfl

@[simp] theorem fetchOperand_reindex :
    (machine.reindex index count).fetchOperand =
      (machine.fetchOperand.1, machine.fetchOperand.2.reindex index count) := by
  cases index <;> rfl

@[simp] theorem fetchOperandWord_reindex :
    (machine.reindex index count).fetchOperandWord =
      (machine.fetchOperandWord.1, machine.fetchOperandWord.2.reindex index count) := by
  cases index <;> rfl

/-! ## The stack -/

@[simp] theorem lowerStack_reindex :
    (machine.reindex index count).lowerStack = machine.lowerStack.reindex index count := by
  unfold lowerStack
  simp only [report_reindex, window_reindex]
  cases index <;> exact update_reindex _ _ _ _ _ rfl

@[simp] theorem raiseStack_reindex :
    (machine.reindex index count).raiseStack = machine.raiseStack.reindex index count := by
  unfold raiseStack
  simp only [report_reindex, window_reindex]
  cases index <;> exact update_reindex _ _ _ _ _ rfl

@[simp] theorem pushByte_reindex (value : Byte) :
    (machine.reindex index count).pushByte value =
      (machine.pushByte value).reindex index count := by
  simp [pushByte]

@[simp] theorem popByte_reindex :
    (machine.reindex index count).popByte =
      (machine.popByte.1, machine.popByte.2.reindex index count) := by
  simp [popByte]

@[simp] theorem push_reindex (value : Word) :
    (machine.reindex index count).push value = (machine.push value).reindex index count := by
  simp [push]

@[simp] theorem pop_reindex :
    (machine.reindex index count).pop =
      (machine.pop.1, machine.pop.2.reindex index count) := by
  simp [pop]

@[simp] theorem call_reindex (address : Word) :
    (machine.reindex index count).call address = (machine.call address).reindex index count := by
  simp [call]

@[simp] theorem ret_reindex :
    (machine.reindex index count).ret = machine.ret.reindex index count := by
  simp [ret]

/-! ## Operands -/

@[simp] theorem locate_reg (register : ByteRegister) :
    machine.locate (.reg register) = (.reg register, machine) :=
  rfl

@[simp] theorem get_reindex (register : ByteRegister) :
    (machine.reindex index count).get (.reg (register.exchanged index)) =
      machine.get (.reg register) :=
  machine.registers.getByte_exchangeIndex index register

@[simp] theorem put_reindex (register : ByteRegister) (value : Byte) :
    (machine.reindex index count).put (.reg (register.exchanged index)) value =
      (machine.put (.reg register) value).reindex index count :=
  machine.update_reindex index count (·.setByte register value)
    (·.setByte (register.exchanged index) value) (by simp)

/-- The accumulator is not exchanged. -/
@[simp] theorem put_a_reindex (value : Byte) :
    (machine.reindex index count).put (.reg .a) value =
      (machine.put (.reg .a) value).reindex index count :=
  machine.put_reindex index count .a value

@[simp] theorem edit_reindex (edit : Edit) (register : ByteRegister) :
    (machine.reindex index count).edit edit (.reg (register.exchanged index)) =
      ((machine.edit edit (.reg register)).1,
        (machine.edit edit (.reg register)).2.reindex index count) := by
  have hput := { machine with
    registers := (machine.registers.edit edit (machine.get (.reg register))).2 }.put_reindex index
      count register (machine.registers.edit edit (machine.get (.reg register))).1
  simp only [Machine.edit, get_reindex, registers_reindex, Registers.edit_exchangeIndex]
  exact congrArg _ hput

@[simp] theorem fetchDevice_reindex :
    (machine.reindex index count).fetchDevice =
      (machine.fetchDevice.1, machine.fetchDevice.2.reindex index count) := by
  simp [fetchDevice]

@[simp] theorem branch_reindex (cost : BranchCost) (taken : Bool) :
    (machine.reindex index count).branch cost taken =
      (machine.branch cost taken).reindex index count := by
  cases taken <;> simp [branch, jumpRelative]

@[simp] theorem receiveFlagged_reindex :
    (machine.reindex index count).receiveFlagged =
      (machine.receiveFlagged.1, machine.receiveFlagged.2.reindex index count) := by
  simp only [receiveFlagged, registers_reindex, Registers.bc_exchangeIndex, receive_reindex]
  refine congrArg _ ?_
  cases index <;> exact update_reindex _ _ _ _ _ rfl

/-! ## Instructions -/

/-- An instruction that refers to registers by name alone passes through the exchange, with the
names exchanged. -/
theorem execute_reindex {instruction : Instruction} (hnames : instruction.namesRegisters) :
    (machine.reindex index count).execute (instruction.exchanged index) =
      (machine.execute instruction).reindex index count := by
  have hoperands := Instruction.exists_register hnames
  cases instruction with
  -- These refer to `HL` without naming it, and the exchange does not pass through them.
  | exchangeBank | exchangeData | rotateDigit | block => exact absurd hnames Bool.false_ne_true
  | halt => cases index <;> rfl
  | load target source =>
      obtain ⟨target, rfl⟩ := hoperands target (by simp [Instruction.byteOperands])
      obtain ⟨source, rfl⟩ := hoperands source (by simp [Instruction.byteOperands])
      simp [execute, Instruction.exchanged, Operand.exchanged]
  | loadByte target =>
      obtain ⟨target, rfl⟩ := hoperands target (by simp [Instruction.byteOperands])
      simp [execute, Instruction.exchanged, Operand.exchanged]
  | loadSpecial source => cases index <;> rfl
  | storeSpecial target => cases index <;> cases target <;> rfl
  | loadStackPointer source =>
      simp only [execute, Instruction.exchanged]
      refine update_reindex _ _ _ _ _ ?_
      rw [Registers.getWord_exchangeIndex]
      cases index <;> rfl
  | exchangeAccumulator => cases index <;> rfl
  | arithmetic op source =>
      obtain ⟨source, rfl⟩ := hoperands source (by simp [Instruction.byteOperands])
      simp only [execute, Instruction.exchanged, Operand.exchanged, locate_reg, get_reindex]
      exact update_reindex _ _ _ _ _ (Registers.arithmetic_exchangeIndex ..)
  | arithmeticByte op =>
      simp only [execute, Instruction.exchanged, fetchOperand_reindex]
      exact update_reindex _ _ _ _ _ (Registers.arithmetic_exchangeIndex ..)
  | accumulate op =>
      simp only [execute, Instruction.exchanged]
      exact update_reindex _ _ _ _ _ (Registers.accumulate_exchangeIndex ..)
  | edit change target copy =>
      obtain ⟨target, rfl⟩ := hoperands target (by simp [Instruction.byteOperands])
      cases copy with
      | none => simp [execute, Instruction.exchanged, Operand.exchanged]
      | some register => simp [execute, Instruction.exchanged, Operand.exchanged]
  | testBit position source =>
      obtain ⟨source, rfl⟩ := hoperands source (by simp [Instruction.byteOperands])
      simp only [execute, Instruction.exchanged, Operand.exchanged, locate_reg, get_reindex,
        Place.copiedByte]
      exact update_reindex _ _ _ _ _ (Registers.testBit_exchangeIndex ..)
  | arithmeticWord op target source =>
      simp only [execute, Instruction.exchanged]
      refine update_reindex _ _ _ _ _ ?_
      simp
  | incrementWord register =>
      simp only [execute, Instruction.exchanged]
      exact update_reindex _ _ _ _ _ (Registers.incrementWord_exchangeIndex ..)
  | decrementWord register =>
      simp only [execute, Instruction.exchanged]
      exact update_reindex _ _ _ _ _ (Registers.decrementWord_exchangeIndex ..)
  | jumpRelative => simp [execute, Instruction.exchanged, jumpRelative]
  | jumpCounted =>
      have hcounted := machine.update_reindex index count Registers.countByte Registers.countByte
        (by cases index <;> rfl)
      simp only [execute, Instruction.exchanged, hcounted, branch_reindex]
      cases index <;> rfl
  | input target =>
      cases target with
      | none => simp [execute, Instruction.exchanged]
      | some target => simp [execute, Instruction.exchanged]
  | output source =>
      cases source with
      | none => simp [execute, Instruction.exchanged]
      | some source => simp [execute, Instruction.exchanged]
  | _ => simp [execute, Instruction.exchanged]

end Machine

end Z80
