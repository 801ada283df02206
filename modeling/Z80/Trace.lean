import Z80.Cycles
import Z80.Hexadecimal

/-!
# Instruction traces

The record of one executed instruction, and its texts. `Trace.line` sets them in columns: the
address from column 0, the opcode from 6, the name from 13, the operands from 28 and the cost from
37, provided that no text is longer than its column.
-/

namespace Z80

/-- An executed instruction: where it began, the bytes that select it, the bytes that it read as
operands, its name and its cost. -/
structure Trace where
  address : Word
  opcode : List Byte
  operands : List Byte
  name : String
  cost : Cost
deriving DecidableEq, Inhabited

namespace Trace

/-- The selecting bytes as text. -/
def opcodeText (trace : Trace) : String :=
  Hexadecimal.bytes trace.opcode

/-- The operand bytes as text. -/
def operandText (trace : Trace) : String :=
  Hexadecimal.bytes trace.operands

/-- The cost as text. -/
def description (trace : Trace) : String :=
  trace.cost.description

/-- A text followed by spaces up to a width; a longer text stays whole. -/
def column (width : Nat) (text : String) : String :=
  text ++ String.ofList (List.replicate (width - text.length) ' ')

/-- The trace as one line. -/
def line (trace : Trace) : String :=
  Hexadecimal.word trace.address ++ ": " ++ column 6 trace.opcodeText ++ " " ++
    column 14 trace.name ++ " " ++ column 6 trace.operandText ++ " ; " ++ trace.description

end Trace

end Z80
