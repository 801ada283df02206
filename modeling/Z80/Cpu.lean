import Z80.Cycles
import Z80.Interrupts
import Z80.Registers

/-!
# The processor's own state

Everything that a reset clears: registers, interrupt flip-flops, the halt state, the cycle counters
and the operand bytes of the current instruction.
-/

namespace Z80

/-! ## Operand bytes -/

/-- The bytes that an instruction has read from the instruction stream after its opcode, as far as
there was room for them. -/
structure OperandBytes where
  toList : List Byte
  fits : toList.length ≤ 4
deriving DecidableEq

namespace OperandBytes

instance : EmptyCollection OperandBytes := ⟨⟨[], Nat.zero_le 4⟩⟩

instance : Inhabited OperandBytes := ⟨{}⟩

/-- Keeps one more byte. If there is no room for it, it is dropped. -/
def record (operands : OperandBytes) (value : Byte) : OperandBytes :=
  if hroom : operands.toList.length < 4 then
    { toList := operands.toList ++ [value]
      fits := by
        rw [List.length_append]
        exact hroom }
  else operands

/-- Keeps more bytes, one after the other. -/
def recordAll (operands : OperandBytes) (values : List Byte) : OperandBytes :=
  values.foldl record operands

variable (operands : OperandBytes)

@[simp] theorem recordAll_nil : operands.recordAll [] = operands :=
  rfl

theorem recordAll_append (first second : List Byte) :
    operands.recordAll (first ++ second) = (operands.recordAll first).recordAll second :=
  List.foldl_append

theorem ext_toList {left right : OperandBytes} (hbytes : left.toList = right.toList) :
    left = right := by
  cases left
  cases right
  cases hbytes
  rfl

theorem toList_record (value : Byte) :
    (operands.record value).toList = (operands.toList ++ [value]).take 4 := by
  have hfits := operands.fits
  unfold record
  split
  case isTrue hroom =>
    refine (List.take_of_length_le ?_).symm
    rw [List.length_append]
    exact hroom
  case isFalse hfull =>
    have hlength : operands.toList.length = 4 := by omega
    rw [List.take_append_of_le_length (Nat.le_of_eq hlength.symm), List.take_of_length_le hfits]

/-- The first four bytes are kept. -/
theorem toList_recordAll (values : List Byte) :
    (operands.recordAll values).toList = (operands.toList ++ values).take 4 := by
  induction values generalizing operands with
  | nil =>
      rw [recordAll_nil, List.append_nil, List.take_of_length_le operands.fits]
  | cons value values ih =>
      calc (operands.recordAll (value :: values)).toList
        _ = ((operands.toList ++ [value]).take 4 ++ values).take 4 := by
            rw [← toList_record, ← ih]
            rfl
        _ = (operands.toList ++ value :: values).take 4 := by
            have hleft : 4 - min 4 (operands.toList ++ [value]).length =
                4 - (operands.toList ++ [value]).length := by omega
            rw [List.take_append, List.take_take, Nat.min_self, List.length_take, hleft,
              ← List.take_append, List.append_assoc]
            rfl

/-- Bytes that there is room for are all kept. -/
theorem toList_recordAll_of_fits {values : List Byte}
    (hroom : operands.toList.length + values.length ≤ 4) :
    (operands.recordAll values).toList = operands.toList ++ values := by
  rw [toList_recordAll, List.take_of_length_le]
  rw [List.length_append]
  exact hroom

example : (OperandBytes.recordAll {} [1, 2, 3, 4, 5]).toList = [1, 2, 3, 4] := by decide

end OperandBytes

/-! ## The state -/

/-- The state of the processor. `operands` holds the bytes that the current instruction has read
from the instruction stream after its opcode. -/
structure Cpu where
  registers : Registers := {}
  interrupts : Interrupts := {}
  halted : Bool := false
  cycles : Cycles := {}
  operands : OperandBytes := {}
deriving DecidableEq, Inhabited

/-- The state after a reset: everything is zero except the stack pointer. -/
def Cpu.initial (sp : Word) : Cpu where
  registers := { sp }

end Z80
