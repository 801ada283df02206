import Z80.Instruction
import Z80.Page

/-!
# The pages of bit operations

The quadrants rotate, test, clear and set. The page without an index register applies them to the
operand in the opcode's column. The pages of the index registers apply all of them to a displaced
cell, and their column names a register that receives a copy of the result.
-/

namespace Z80.Page

open Opcode

/-- The bit operation of an opcode on an operand. A test has no result to copy. -/
def bitInstruction (opcode : Byte) (target : Operand) (copy : Option ByteRegister) : Instruction :=
  match quadrant opcode with
  | 0 => .edit (.shift (Shift.ofField (row opcode))) target copy
  | 1 => .testBit (row opcode) target
  | 2 => .edit (.clear (row opcode)) target copy
  | 3 => .edit (.set (row opcode)) target copy

/-- The name of the bit operation of an opcode, given the operand's name. -/
def bitName (opcode : Byte) (operand : String) : String :=
  match quadrant opcode with
  | 0 => (Shift.ofField (row opcode)).mnemonic ++ " " ++ operand
  | 1 => "BIT b," ++ operand
  | 2 => "RES b," ++ operand
  | 3 => "SET b," ++ operand

/-- The cost of a bit operation on memory: a test is cheaper, since it writes nothing. -/
def bitMemoryCost (opcode : Byte) (test edit : BitVec 32) : Cost :=
  match quadrant opcode with
  | 1 => .fixed test
  | _ => .fixed edit

/-- The entry of an opcode on the page of bit operations. -/
def bitsEntry (opcode : Byte) : Entry :=
  let target := Operand.source opcode
  { instruction := bitInstruction opcode target none
    name := bitName opcode "r"
    cost :=
      match target with
      | .reg _ => .fixed 8
      | _ => bitMemoryCost opcode 12 15 }

/-- The entry of an opcode on an index register's page of bit operations. -/
def indexedBitsEntry (index : Index) (displacement opcode : Byte) : Entry where
  instruction :=
    bitInstruction opcode (.offset index displacement) (Operand.source opcode).register?
  name := bitName opcode ("(" ++ index.mnemonic ++ "+d)")
  cost := bitMemoryCost opcode 20 23

end Z80.Page
