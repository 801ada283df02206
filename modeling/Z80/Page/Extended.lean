import Z80.Instruction
import Z80.Page

/-!
# The page of extensions

Devices addressed by `BC`, word arithmetic with carry, interrupt control and the block
instructions. Most of the page is empty.
-/

namespace Z80.Page

open Opcode

/-- The name of a block instruction. A repeating output drops a letter. -/
def blockName (op : BlockOp) (direction : Direction) (repeats : Bool) : String :=
  let verb :=
    match op, repeats with
    | .load, _ => "LD"
    | .compare, _ => "CP"
    | .input, _ => "IN"
    | .output, false => "OUT"
    | .output, true => "OT"
  let way :=
    match direction with
    | .up => "I"
    | .down => "D"
  verb ++ way ++ (if repeats then "R" else "")

/-- A block instruction with its name and cost. -/
def block (op : BlockOp) (direction : Direction) (repeats : Bool) : Entry where
  instruction := .block op direction repeats
  name := blockName op direction repeats
  cost := if repeats then .dynamic else .fixed 16

/-- The second quadrant of the page. -/
def extensions? (opcode : Byte) : Option Entry :=
  match column opcode, row opcode with
  | 0, 6 => some ⟨.input none, "IN (C)", .fixed 12⟩
  | 0, row => some ⟨.input (Operand.ofField row).register?, "IN r,(C)", .fixed 12⟩
  | 1, 6 => some ⟨.output none, "OUT (C),0", .fixed 12⟩
  | 1, row => some ⟨.output (Operand.ofField row).register?, "OUT (C),r", .fixed 12⟩
  | 2, row =>
      let register := WordRegister.ofOpcode opcode
      if row.val % 2 = 0 then
        some ⟨.arithmeticWord .subtractCarry (.pair .hl) register, "SBC HL,rr", .fixed 15⟩
      else
        some ⟨.arithmeticWord .addCarry (.pair .hl) register, "ADC HL,rr", .fixed 15⟩
  | 3, row =>
      let register := WordRegister.ofOpcode opcode
      if row.val % 2 = 0 then some ⟨.storeWordDirect register, "LD (nn),rr", .fixed 20⟩
      else some ⟨.loadWordDirect register, "LD rr,(nn)", .fixed 20⟩
  | 4, _ => some ⟨.accumulate .negate, "NEG", .fixed 8⟩
  | 5, 1 => some ⟨.retMaskable, "RETI", .fixed 14⟩
  | 5, _ => some ⟨.retNonMaskable, "RETN", .fixed 14⟩
  | 6, _ =>
      let mode := InterruptMode.ofField (opcode.extractLsb' 3 2).toFin
      some ⟨.interruptMode mode, "IM " ++ toString mode.toNat, .fixed 8⟩
  | 7, 0 => some ⟨.storeSpecial .interruptPage, "LD I,A", .fixed 9⟩
  | 7, 1 => some ⟨.storeSpecial .refresh, "LD R,A", .fixed 9⟩
  | 7, 2 => some ⟨.loadSpecial .interruptPage, "LD A,I", .fixed 9⟩
  | 7, 3 => some ⟨.loadSpecial .refresh, "LD A,R", .fixed 9⟩
  | 7, 4 => some ⟨.rotateDigit .right, "RRD", .fixed 18⟩
  | 7, 5 => some ⟨.rotateDigit .left, "RLD", .fixed 18⟩
  | 7, _ => none

/-- What the block instructions of a column do. -/
def blockOp? (column : Fin 8) : Option BlockOp :=
  match column with
  | 0 => some .load
  | 1 => some .compare
  | 2 => some .input
  | 3 => some .output
  | _ => none

/-- The third quadrant of the page, whose lower half is empty. -/
def blocks? (opcode : Byte) : Option Entry := do
  let op ← blockOp? (column opcode)
  match row opcode with
  | 4 => some (block op .up false)
  | 5 => some (block op .down false)
  | 6 => some (block op .up true)
  | 7 => some (block op .down true)
  | _ => none

/-- The entry of an opcode on the page of extensions. -/
def extendedEntry? (opcode : Byte) : Option Entry :=
  match quadrant opcode with
  | 1 => extensions? opcode
  | 2 => blocks? opcode
  | _ => none

end Z80.Page
