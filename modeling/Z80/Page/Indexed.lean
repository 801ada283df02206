import Z80.Instruction
import Z80.Page

/-!
# The pages of the index registers

Opcodes that name `HL`, `H`, `L` or the cell at `HL` where there is no leading byte name an index
register here: the register itself, its halves, or a displaced cell. Next to a displaced cell `H`
and `L` keep their meaning. Every other opcode is missing, and so is the exchange of `DE` and `HL`.
-/

namespace Z80

namespace ByteRegister

/-- True for the halves of `HL`. -/
def isHalf : ByteRegister → Bool
  | .h | .l => true
  | _ => false

/-- The register with the halves of `HL` replaced by those of an index register. -/
def indexed (index : Index) : ByteRegister → ByteRegister
  | .h => .indexHigh index
  | .l => .indexLow index
  | register => register

end ByteRegister

/-- The register pair with `HL` replaced by an index register. -/
def WordRegister.indexed (index : Index) : WordRegister → WordRegister
  | .pair .hl => .index index
  | register => register

namespace Page

open Opcode

/-- The name of an index register's halves. -/
def halfName (index : Index) : String :=
  index.mnemonic ++ "p"

/-- The name of a displaced cell. -/
def cellName (index : Index) : String :=
  "(" ++ index.mnemonic ++ "+d)"

/-- The entry for a register or a cell that an opcode names in one of its fields: for a half of the
index register, or for a displaced cell, but for no other register. -/
def indexedOperand? (index : Index) (operand : Operand) (half cell : Operand → Entry) :
    Option Entry :=
  match operand with
  | .reg register =>
      if register.isHalf then some (half (.reg (register.indexed index))) else none
  | .indirect => some (cell (.displaced index))
  | _ => none

/-- The first quadrant: the index register as a pair, and counting and loading its halves or a
displaced cell. -/
def indexedMiscellany? (index : Index) (opcode : Byte) : Option Entry :=
  let register := WordRegister.index index
  let name := index.mnemonic
  match column opcode, row opcode with
  | 1, 4 => some ⟨.loadWord register, "LD " ++ name ++ ",nn", .fixed 14⟩
  | 1, row =>
      let source := (WordRegister.ofOpcode opcode).indexed index
      if row.val % 2 = 0 then none
      else some ⟨.arithmeticWord .add register source, "ADD " ++ name ++ ",rr", .fixed 15⟩
  | 2, 4 => some ⟨.storeWordDirect register, "LD (nn)," ++ name, .fixed 20⟩
  | 2, 5 => some ⟨.loadWordDirect register, "LD " ++ name ++ ",(nn)", .fixed 20⟩
  | 3, 4 => some ⟨.incrementWord register, "INC " ++ name, .fixed 10⟩
  | 3, 5 => some ⟨.decrementWord register, "DEC " ++ name, .fixed 10⟩
  | 4, row =>
      indexedOperand? index (Operand.ofField row)
        (fun half => ⟨.edit .increment half none, "INC " ++ halfName index, .fixed 8⟩)
        (fun cell => ⟨.edit .increment cell none, "INC " ++ cellName index, .fixed 23⟩)
  | 5, row =>
      indexedOperand? index (Operand.ofField row)
        (fun half => ⟨.edit .decrement half none, "DEC " ++ halfName index, .fixed 8⟩)
        (fun cell => ⟨.edit .decrement cell none, "DEC " ++ cellName index, .fixed 23⟩)
  | 6, row =>
      indexedOperand? index (Operand.ofField row)
        (fun half => ⟨.loadByte half, "LD " ++ halfName index ++ ",n", .fixed 11⟩)
        (fun cell => ⟨.loadByte cell, "LD " ++ cellName index ++ ",n", .fixed 19⟩)
  | _, _ => none

/-- The second quadrant: loads to or from a half or a displaced cell. -/
def indexedLoads? (index : Index) (opcode : Byte) : Option Entry :=
  match Operand.target opcode, Operand.source opcode with
  | .indirect, .indirect => none
  | .indirect, source =>
      some ⟨.load (.displaced index) source, "LD " ++ cellName index ++ ",r", .fixed 19⟩
  | target, .indirect =>
      some ⟨.load target (.displaced index), "LD r," ++ cellName index, .fixed 19⟩
  | .reg target, .reg source =>
      let load := Instruction.load (.reg (target.indexed index)) (.reg (source.indexed index))
      if target.isHalf then some ⟨load, "LD " ++ halfName index ++ ",r", .fixed 8⟩
      else if source.isHalf then some ⟨load, "LD r," ++ halfName index, .fixed 8⟩
      else none
  | _, _ => none

/-- The third quadrant: arithmetic between the accumulator and a half or a displaced cell. -/
def indexedArithmetic? (index : Index) (opcode : Byte) : Option Entry :=
  let op := AluOp.ofField (row opcode)
  indexedOperand? index (Operand.source opcode)
    (fun half => ⟨.arithmetic op half, op.mnemonic ++ halfName index, .fixed 8⟩)
    (fun cell => ⟨.arithmetic op cell, op.mnemonic ++ cellName index, .fixed 19⟩)

/-- The fourth quadrant: the stack and a jump. -/
def indexedControl? (index : Index) (opcode : Byte) : Option Entry :=
  let register := WordRegister.index index
  let name := index.mnemonic
  match column opcode, row opcode with
  | 1, 4 => some ⟨.pop register, "POP " ++ name, .fixed 14⟩
  | 1, 5 => some ⟨.jumpTo register, "JP (" ++ name ++ ")", .fixed 8⟩
  | 1, 7 => some ⟨.loadStackPointer register, "LD SP," ++ name, .fixed 10⟩
  | 3, 4 => some ⟨.exchangeTop register, "EX (SP)," ++ name, .fixed 23⟩
  | 5, 4 => some ⟨.push register, "PUSH " ++ name, .fixed 15⟩
  | _, _ => none

/-- The entry of an opcode on the page of an index register. -/
def indexedEntry? (index : Index) (opcode : Byte) : Option Entry :=
  match quadrant opcode with
  | 0 => indexedMiscellany? index opcode
  | 1 => indexedLoads? index opcode
  | 2 => indexedArithmetic? index opcode
  | 3 => indexedControl? index opcode

end Page

end Z80
