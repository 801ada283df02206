/-!
# Interrupt control

Two flip-flops gate maskable requests. `iff1` is the gate; `iff2` keeps its value while a
non-maskable interrupt is served, so that the return from it can restore the gate.
-/

namespace Z80

/-- How a maskable request is served. -/
inductive InterruptMode where
  | zero
  | one
  | two
deriving DecidableEq, Inhabited

namespace InterruptMode

/-- The number of a mode. -/
def toNat : InterruptMode → Nat
  | .zero => 0
  | .one => 1
  | .two => 2

/-- The mode that a two-bit opcode field selects. -/
def ofField : Fin 4 → InterruptMode
  | 0 | 1 => .zero
  | 2 => .one
  | 3 => .two

end InterruptMode

/-- The interrupt flip-flops and mode. -/
structure Interrupts where
  iff1 : Bool := false
  iff2 : Bool := false
  mode : InterruptMode := .zero
deriving DecidableEq, Inhabited

namespace Interrupts

/-- Lets maskable requests through. -/
def enable (interrupts : Interrupts) : Interrupts :=
  { interrupts with iff1 := true, iff2 := true }

/-- Holds maskable requests back. -/
def disable (interrupts : Interrupts) : Interrupts :=
  { interrupts with iff1 := false, iff2 := false }

/-- Selects the mode. -/
def setMode (interrupts : Interrupts) (mode : InterruptMode) : Interrupts :=
  { interrupts with mode }

/-- Closes the gate for a non-maskable interrupt and keeps its old state. -/
def suspend (interrupts : Interrupts) : Interrupts :=
  { interrupts with iff1 := false, iff2 := interrupts.iff1 }

/-- Puts the gate back as it was before a non-maskable interrupt. -/
def restore (interrupts : Interrupts) : Interrupts :=
  { interrupts with iff1 := interrupts.iff2 }

end Interrupts

end Z80
