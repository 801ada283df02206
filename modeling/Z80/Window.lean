import Z80.Event

/-!
# The stack window

The part of memory that the stack may use. A stack pointer stands at a position from `lowest` to
`limit`, and `limit` is the position of an empty stack. Where the whole address space is the stack,
a pointer of zero stands at its end. A pointer that leaves the window is reported and goes round to
the opposite end.
-/

namespace Z80

/-- The addresses that the stack may use, from `lowest` up to but not including `highest`. -/
structure Window where
  lowest : Nat := 0
  highest : Nat := 0x10000
deriving DecidableEq, Inhabited

namespace Window

/-- The end of the window, at most the end of the address space. -/
def limit (window : Window) : Nat :=
  min window.highest 0x10000

/-- Where a stack pointer stands. -/
def position (window : Window) (sp : Word) : Nat :=
  if sp = 0 ∧ window.limit = 0x10000 then window.limit else sp.toNat

/-- The stack pointer after a decrement, and the fault if it left the window. -/
def decrement (window : Window) (sp : Word) : Word × Option Fault :=
  let position := window.position sp
  if position = 0 ∨ position - 1 < window.lowest then
    let wrapped := BitVec.ofNat 16 (window.limit - 1)
    (wrapped, some (.stackUnderflow position window.lowest wrapped))
  else
    (BitVec.ofNat 16 (position - 1), none)

/-- The stack pointer after an increment, and the fault if it left the window. -/
def increment (window : Window) (sp : Word) : Word × Option Fault :=
  if window.limit < sp.toNat + 1 then
    let wrapped := BitVec.ofNat 16 window.lowest
    (wrapped, some (.stackOverflow sp window.limit wrapped))
  else
    (sp + 1, none)

end Window

end Z80
