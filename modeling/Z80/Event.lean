import Z80.Interrupts
import Z80.Trace

/-!
# Events

What a running machine does that can be seen from outside, apart from its state: its accesses to
memory and devices, and what it has to report about its run.
-/

namespace Z80

/-- Something that went wrong. The machine goes on all the same. -/
inductive Fault where
  /-- The stack pointer, at the given position, was decremented below the window. -/
  | stackUnderflow (position lowest : Nat) (wrapped : Word)
  /-- The stack pointer was incremented past the end of the window. -/
  | stackOverflow (sp : Word) (limit : Nat) (wrapped : Word)
  /-- The bytes at an address select no instruction. -/
  | unhandledOpcode (opcode : List Byte) (address : Word)
  /-- A maskable request arrived in the mode that this machine does not serve. -/
  | requestDropped (pc : Word)
deriving DecidableEq, Inhabited

/-- The fault as a sentence. -/
def Fault.message : Fault → String
  | .stackUnderflow position lowest wrapped =>
      "Stack underflow: SP " ++ Hexadecimal.atLeast 4 position ++ " decremented below " ++
        Hexadecimal.atLeast 4 lowest ++ ", wrapped to " ++ Hexadecimal.word wrapped
  | .stackOverflow sp limit wrapped =>
      "Stack overflow: SP " ++ Hexadecimal.word sp ++ " incremented past " ++
        Hexadecimal.atLeast 4 limit ++ ", wrapped to " ++ Hexadecimal.word wrapped
  | .unhandledOpcode opcode address =>
      "Unhandled opcode " ++ Hexadecimal.bytes opcode ++ " at " ++ Hexadecimal.word address
  | .requestDropped pc =>
      "Interrupt mode 2 is not supported on this hardware (PC=" ++ Hexadecimal.word pc ++
        "); request dropped"

/-- Where a non-maskable interrupt leads. -/
def nonMaskableVector : Word := 0x0066

/-- Where a maskable interrupt leads. -/
def maskableVector : Word := 0x0038

/-- A turn in the run that is worth a word. -/
inductive Notice where
  /-- A non-maskable request was served. -/
  | nonMaskableServed (pc : Word)
  /-- A maskable request was served. -/
  | maskableServed (pc : Word) (mode : InterruptMode)
  /-- A halt instruction was executed at the given address. -/
  | halted (address : Word)
deriving DecidableEq, Inhabited

/-- The notice as a sentence. -/
def Notice.message : Notice → String
  | .nonMaskableServed pc =>
      "NMI serviced at PC=" ++ Hexadecimal.word pc ++ ", jumping to " ++
        Hexadecimal.word nonMaskableVector
  | .maskableServed pc mode =>
      "IRQ serviced at PC=" ++ Hexadecimal.word pc ++ " (IM " ++ toString mode.toNat ++
        "), jumping to " ++ Hexadecimal.word maskableVector
  | .halted address => "HALT at " ++ Hexadecimal.word address

/-- One thing that a machine did or reported. -/
inductive Event where
  | memoryWrite (address : Word) (value : Byte)
  /-- A byte came in from a device. -/
  | received (device : Word) (value : Byte)
  /-- A byte went out to a device. -/
  | sent (device : Word) (value : Byte)
  | fault (fault : Fault)
  | notice (notice : Notice)
  | executed (trace : Trace)
deriving DecidableEq, Inhabited

namespace Event

/-- The address and value of a write to memory. -/
def memoryWrite? : Event → Option (Word × Byte)
  | .memoryWrite address value => some (address, value)
  | _ => none

/-- The device and value of a byte received. -/
def received? : Event → Option (Word × Byte)
  | .received device value => some (device, value)
  | _ => none

/-- The device and value of a byte sent. -/
def sent? : Event → Option (Word × Byte)
  | .sent device value => some (device, value)
  | _ => none

end Event

end Z80
