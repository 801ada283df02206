import Z80.Flags

/-!
# Branch conditions

A condition compares one flag with the value it should have, so each has a complement, and of the
two exactly one holds.
-/

namespace Z80

/-- A flag that a condition can look at. -/
inductive TestedFlag where
  | zero
  | carry
  | parity
  | sign
deriving DecidableEq, Inhabited

/-- The tested flag's value. -/
def TestedFlag.read (flag : TestedFlag) (flags : Flags) : Bool :=
  match flag with
  | .zero => flags.zero
  | .carry => flags.carry
  | .parity => flags.parity
  | .sign => flags.sign

/-- A flag and the value that it should have. -/
structure Condition where
  flag : TestedFlag
  expected : Bool
deriving DecidableEq, Inhabited

namespace Condition

/-- True when the flag has the expected value. -/
def holds (condition : Condition) (flags : Flags) : Bool :=
  condition.flag.read flags == condition.expected

/-- The condition on the same flag that holds when this one does not. -/
def complement (condition : Condition) : Condition :=
  { condition with expected := !condition.expected }

theorem holds_complement (condition : Condition) (flags : Flags) :
    condition.complement.holds flags = !condition.holds flags := by
  simp only [complement, holds]
  cases condition.flag.read flags <;> cases condition.expected <;> rfl

/-- The condition that a three-bit opcode field selects. -/
def ofField : Fin 8 → Condition
  | 0 => ⟨.zero, false⟩
  | 1 => ⟨.zero, true⟩
  | 2 => ⟨.carry, false⟩
  | 3 => ⟨.carry, true⟩
  | 4 => ⟨.parity, false⟩
  | 5 => ⟨.parity, true⟩
  | 6 => ⟨.sign, false⟩
  | 7 => ⟨.sign, true⟩

/-- The condition as an assembler writes it. -/
def mnemonic : Condition → String
  | ⟨.zero, false⟩ => "NZ"
  | ⟨.zero, true⟩ => "Z"
  | ⟨.carry, false⟩ => "NC"
  | ⟨.carry, true⟩ => "C"
  | ⟨.parity, false⟩ => "PO"
  | ⟨.parity, true⟩ => "PE"
  | ⟨.sign, false⟩ => "P"
  | ⟨.sign, true⟩ => "M"

end Condition

end Z80
