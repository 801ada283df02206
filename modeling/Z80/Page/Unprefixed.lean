import Z80.Hexadecimal
import Z80.Instruction
import Z80.Page

/-!
# The page without leading bytes

All opcodes but the four that lead to another page. The quadrants hold miscellany, loads, arithmetic
and control flow.
-/

namespace Z80.Page

open Opcode

/-- The cost of an instruction on a register or, dearer, on memory. -/
def operandCost (operand : Operand) (register memory : BitVec 32) : Cost :=
  match operand with
  | .reg _ => .fixed register
  | _ => .fixed memory

/-- The name of an accumulator rotation. -/
def rotationName (op : Shift) : String :=
  op.mnemonic ++ "A"

/-- The first quadrant: register pairs, memory through pairs, counting, and the accumulator. -/
def miscellany (opcode : Byte) : Entry :=
  match column opcode, row opcode with
  | 0, 0 => ⟨.noOperation, "NOP", .fixed 4⟩
  | 0, 1 => ⟨.exchangeAccumulator, "EX AF,AF'", .fixed 4⟩
  | 0, 2 => ⟨.jumpCounted, "DJNZ e", .dynamic⟩
  | 0, 3 => ⟨.jumpRelative, "JR e", .fixed 12⟩
  | 0, row =>
      let condition := Condition.ofField (row - 4)
      ⟨.jumpRelativeIf condition, "JR " ++ condition.mnemonic ++ ",e", .dynamic⟩
  | 1, row =>
      let register := WordRegister.ofOpcode opcode
      if row.val % 2 = 0 then ⟨.loadWord register, "LD rr,nn", .fixed 10⟩
      else ⟨.arithmeticWord .add (.pair .hl) register, "ADD HL,rr", .fixed 11⟩
  | 2, 0 => ⟨.storeThrough (.pair .bc), "LD (BC),A", .fixed 7⟩
  | 2, 1 => ⟨.loadThrough (.pair .bc), "LD A,(BC)", .fixed 7⟩
  | 2, 2 => ⟨.storeThrough (.pair .de), "LD (DE),A", .fixed 7⟩
  | 2, 3 => ⟨.loadThrough (.pair .de), "LD A,(DE)", .fixed 7⟩
  | 2, 4 => ⟨.storeWordDirect (.pair .hl), "LD (nn),HL", .fixed 16⟩
  | 2, 5 => ⟨.loadWordDirect (.pair .hl), "LD HL,(nn)", .fixed 16⟩
  | 2, 6 => ⟨.storeDirect, "LD (nn),A", .fixed 13⟩
  | 2, 7 => ⟨.loadDirect, "LD A,(nn)", .fixed 13⟩
  | 3, row =>
      let register := WordRegister.ofOpcode opcode
      if row.val % 2 = 0 then ⟨.incrementWord register, "INC rr", .fixed 6⟩
      else ⟨.decrementWord register, "DEC rr", .fixed 6⟩
  | 4, row =>
      let target := Operand.ofField row
      ⟨.edit .increment target none, "INC r", operandCost target 4 11⟩
  | 5, row =>
      let target := Operand.ofField row
      ⟨.edit .decrement target none, "DEC r", operandCost target 4 11⟩
  | 6, row =>
      let target := Operand.ofField row
      ⟨.loadByte target, "LD r,n", operandCost target 7 10⟩
  | 7, 4 => ⟨.accumulate .decimalAdjust, "DAA", .fixed 4⟩
  | 7, 5 => ⟨.accumulate .complement, "CPL", .fixed 4⟩
  | 7, 6 => ⟨.accumulate .setCarry, "SCF", .fixed 4⟩
  | 7, 7 => ⟨.accumulate .complementCarry, "CCF", .fixed 4⟩
  | 7, row =>
      let op := Shift.ofField row
      ⟨.accumulate (.rotate op), rotationName op, .fixed 4⟩

/-- The second quadrant: loads between registers and memory. The slot that would copy memory to
itself is the halt instruction. -/
def loads (opcode : Byte) : Entry :=
  match Operand.target opcode, Operand.source opcode with
  | .indirect, .indirect => ⟨.halt, "HALT", .fixed 4⟩
  | .indirect, source => ⟨.load .indirect source, "LD (HL),r", .fixed 7⟩
  | target, .indirect => ⟨.load target .indirect, "LD r,(HL)", .fixed 7⟩
  | target, source => ⟨.load target source, "LD r,r'", .fixed 4⟩

/-- The third quadrant: arithmetic between the accumulator and an operand. -/
def arithmetic (opcode : Byte) : Entry :=
  let op := AluOp.ofField (row opcode)
  let source := Operand.source opcode
  ⟨.arithmetic op source, op.mnemonic ++ "r", operandCost source 4 7⟩

/-- The fourth quadrant: control flow, the stack, devices and immediate arithmetic. -/
def control (opcode : Byte) : Option Entry :=
  match column opcode, row opcode with
  | 0, row =>
      let condition := Condition.ofField row
      some ⟨.retIf condition, "RET " ++ condition.mnemonic, .dynamic⟩
  | 1, 1 => some ⟨.ret, "RET", .fixed 10⟩
  | 1, 3 => some ⟨.exchangeBank, "EXX", .fixed 4⟩
  | 1, 5 => some ⟨.jumpTo (.pair .hl), "JP (HL)", .fixed 4⟩
  | 1, 7 => some ⟨.loadStackPointer (.pair .hl), "LD SP,HL", .fixed 6⟩
  | 1, _ => some ⟨.pop (WordRegister.ofStackOpcode opcode), "POP rr", .fixed 10⟩
  | 2, row =>
      let condition := Condition.ofField row
      some ⟨.jumpIf condition, "JP " ++ condition.mnemonic ++ ",nn", .fixed 10⟩
  | 3, 0 => some ⟨.jump, "JP nn", .fixed 10⟩
  | 3, 1 => none
  | 3, 2 => some ⟨.outputDirect, "OUT (n),A", .fixed 11⟩
  | 3, 3 => some ⟨.inputDirect, "IN A,(n)", .fixed 11⟩
  | 3, 4 => some ⟨.exchangeTop (.pair .hl), "EX (SP),HL", .fixed 19⟩
  | 3, 5 => some ⟨.exchangeData, "EX DE,HL", .fixed 4⟩
  | 3, 6 => some ⟨.disableInterrupts, "DI", .fixed 4⟩
  | 3, 7 => some ⟨.enableInterrupts, "EI", .fixed 4⟩
  | 4, row =>
      let condition := Condition.ofField row
      some ⟨.callIf condition, "CALL " ++ condition.mnemonic ++ ",nn", .dynamic⟩
  | 5, 1 => some ⟨.call, "CALL nn", .fixed 17⟩
  | 5, 3 => none
  | 5, 5 => none
  | 5, 7 => none
  | 5, _ => some ⟨.push (WordRegister.ofStackOpcode opcode), "PUSH rr", .fixed 11⟩
  | 6, row =>
      let op := AluOp.ofField row
      some ⟨.arithmeticByte op, op.mnemonic ++ "n", .fixed 7⟩
  | 7, _ =>
      let vector := opcode &&& 0x38
      some ⟨.restart (vector.setWidth 16), "RST " ++ Hexadecimal.byte vector ++ "H", .fixed 11⟩

/-- The entry of an opcode on the page without leading bytes. -/
def unprefixedEntry? (opcode : Byte) : Option Entry :=
  match quadrant opcode with
  | 0 => some (miscellany opcode)
  | 1 => some (loads opcode)
  | 2 => some (arithmetic opcode)
  | 3 => control opcode

end Z80.Page
