import Z80.Alu
import Z80.Condition
import Z80.Cycles
import Z80.Interrupts
import Z80.Opcode

/-!
# Instructions

What an opcode asks for. Immediate operands are not part of an instruction: it reads them from the
instruction stream while it executes. `operandCount` says how many bytes that is.
-/

namespace Z80

/-- The two registers that only the accumulator exchanges values with. -/
inductive SpecialRegister where
  | interruptPage
  | refresh
deriving DecidableEq, Inhabited

/-- What a block instruction does with each byte. -/
inductive BlockOp where
  | load
  | compare
  | input
  | output
deriving DecidableEq, Inhabited

/-- The way in which a block instruction walks through memory. -/
inductive Direction where
  | up
  | down
deriving DecidableEq, Inhabited

/-- A word moved one step in a direction. -/
def Direction.step {width : Nat} (direction : Direction) (value : BitVec width) : BitVec width :=
  match direction with
  | .up => value + 1
  | .down => value - 1

/-- An instruction. -/
inductive Instruction where
  | noOperation
  | halt
  | enableInterrupts
  | disableInterrupts
  | interruptMode (mode : InterruptMode)
  /-- Copies a byte from an operand to another. -/
  | load (target source : Operand)
  /-- Stores the next byte of the instruction in an operand. -/
  | loadByte (target : Operand)
  /-- Loads the accumulator from the address in a register. -/
  | loadThrough (pointer : WordRegister)
  /-- Stores the accumulator at the address in a register. -/
  | storeThrough (pointer : WordRegister)
  /-- Loads the accumulator from the address in the instruction. -/
  | loadDirect
  /-- Stores the accumulator at the address in the instruction. -/
  | storeDirect
  /-- Loads the accumulator from a special register. -/
  | loadSpecial (source : SpecialRegister)
  /-- Copies the accumulator to a special register. -/
  | storeSpecial (target : SpecialRegister)
  /-- Puts the next two bytes of the instruction into a register. -/
  | loadWord (target : WordRegister)
  /-- Loads a register from the address in the instruction. -/
  | loadWordDirect (target : WordRegister)
  /-- Stores a register at the address in the instruction. -/
  | storeWordDirect (source : WordRegister)
  /-- Copies a register to the stack pointer. -/
  | loadStackPointer (source : WordRegister)
  | push (source : WordRegister)
  | pop (target : WordRegister)
  /-- Swaps a register with the word on top of the stack. -/
  | exchangeTop (register : WordRegister)
  /-- Swaps `AF` with its shadow. -/
  | exchangeAccumulator
  /-- Swaps `BC`, `DE` and `HL` with their shadows. -/
  | exchangeBank
  /-- Swaps `DE` and `HL`. -/
  | exchangeData
  /-- Combines the accumulator with an operand. -/
  | arithmetic (op : AluOp) (source : Operand)
  /-- Combines the accumulator with the next byte of the instruction. -/
  | arithmeticByte (op : AluOp)
  | accumulate (op : AccumulatorOp)
  /-- Changes an operand; a register may receive a copy of the result. -/
  | edit (edit : Edit) (target : Operand) (copy : Option ByteRegister)
  | testBit (position : BitPosition) (source : Operand)
  /-- Rotates digits between the accumulator and the byte at `HL`. -/
  | rotateDigit (rotation : DigitRotation)
  /-- Combines a register with another and keeps the result in the first. -/
  | arithmeticWord (op : WordOp) (target source : WordRegister)
  | incrementWord (register : WordRegister)
  | decrementWord (register : WordRegister)
  | jump
  | jumpIf (condition : Condition)
  | jumpRelative
  | jumpRelativeIf (condition : Condition)
  /-- Takes one from `B` and jumps while it is not zero. -/
  | jumpCounted
  /-- Jumps to the address in a register. -/
  | jumpTo (register : WordRegister)
  | call
  | callIf (condition : Condition)
  /-- Calls a fixed address. -/
  | restart (vector : Word)
  | ret
  | retIf (condition : Condition)
  /-- Returns from a non-maskable interrupt. -/
  | retNonMaskable
  /-- Returns from a maskable interrupt. -/
  | retMaskable
  /-- Receives from the device given by the accumulator and the next byte of the instruction. -/
  | inputDirect
  /-- Sends to the device given by the accumulator and the next byte of the instruction. -/
  | outputDirect
  /-- Receives from the device in `BC` into a register, or for the flags alone. -/
  | input (target : Option ByteRegister)
  /-- Sends a register, or zero, to the device in `BC`. -/
  | output (source : Option ByteRegister)
  | block (op : BlockOp) (direction : Direction) (repeats : Bool)
deriving DecidableEq, Inhabited

/-- How many displacement bytes an operand reads from the instruction stream. -/
def Operand.operandCount : Operand → Nat
  | .displaced _ => 1
  | _ => 0

/-- How many bytes an instruction reads from the instruction stream after its opcode. -/
def Instruction.operandCount : Instruction → Nat
  | .load target source => target.operandCount + source.operandCount
  | .loadByte target => target.operandCount + 1
  | .arithmetic _ source => source.operandCount
  | .edit _ target _ => target.operandCount
  | .testBit _ source => source.operandCount
  | .loadDirect | .storeDirect | .loadWord _ | .loadWordDirect _ | .storeWordDirect _ => 2
  | .jump | .jumpIf _ | .call | .callIf _ => 2
  | .arithmeticByte _ | .jumpRelative | .jumpRelativeIf _ | .jumpCounted => 1
  | .inputDirect | .outputDirect => 1
  | _ => 0

/-- An instruction with its name and cost, as an opcode page lists it. -/
structure Entry where
  instruction : Instruction
  name : String
  cost : Cost
deriving DecidableEq, Inhabited

end Z80
