import Z80.Registers

/-!
# Fields of an opcode

An opcode splits into a quadrant (bits 6 and 7), a row (bits 3 to 5) and a column (bits 0 to 2).
Instructions of one family differ in one of these fields, which then selects a register, a
condition, an operation or a bit.
-/

namespace Z80

namespace Opcode

/-- Bits 6 and 7. -/
def quadrant (opcode : Byte) : Fin 4 :=
  (opcode.extractLsb' 6 2).toFin

/-- Bits 3 to 5. -/
def row (opcode : Byte) : Fin 8 :=
  (opcode.extractLsb' 3 3).toFin

/-- Bits 0 to 2. -/
def column (opcode : Byte) : Fin 8 :=
  (opcode.extractLsb' 0 3).toFin

/-- Bits 4 and 5, the row without its lowest bit. -/
def pair (opcode : Byte) : Fin 4 :=
  (opcode.extractLsb' 4 2).toFin

end Opcode

/-- Where an instruction finds a byte. -/
inductive Operand where
  /-- In a register. -/
  | reg (register : ByteRegister)
  /-- In memory at `HL`. -/
  | indirect
  /-- In memory at an index register displaced by the next byte of the instruction. -/
  | displaced (index : Index)
  /-- In memory at an index register displaced by a byte that came before the opcode. -/
  | offset (index : Index) (displacement : Byte)
deriving DecidableEq, Inhabited

namespace Operand

/-- The operand that a three-bit opcode field selects. -/
def ofField : Fin 8 → Operand
  | 0 => .reg .b
  | 1 => .reg .c
  | 2 => .reg .d
  | 3 => .reg .e
  | 4 => .reg .h
  | 5 => .reg .l
  | 6 => .indirect
  | 7 => .reg .a

/-- The operand in the column of an opcode. -/
def source (opcode : Byte) : Operand :=
  ofField (Opcode.column opcode)

/-- The operand in the row of an opcode. -/
def target (opcode : Byte) : Operand :=
  ofField (Opcode.row opcode)

/-- The register, if the operand is one. -/
def register? : Operand → Option ByteRegister
  | .reg register => some register
  | _ => none

end Operand

namespace WordRegister

/-- The register pair that bits 4 and 5 of an opcode select for loads and arithmetic. -/
def ofOpcode (opcode : Byte) : WordRegister :=
  match Opcode.pair opcode with
  | 0 => .pair .bc
  | 1 => .pair .de
  | 2 => .pair .hl
  | 3 => .sp

/-- The register pair that bits 4 and 5 of an opcode select for pushing and popping. -/
def ofStackOpcode (opcode : Byte) : WordRegister :=
  match Opcode.pair opcode with
  | 0 => .pair .bc
  | 1 => .pair .de
  | 2 => .pair .hl
  | 3 => .pair .af

end WordRegister

end Z80
