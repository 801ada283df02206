import Z80.Word

/-!
# Devices and interrupt lines

What the processor sees of the devices: two request lines, which a device raises and which stay
raised until the processor lowers them, and the bytes that come in when it reads.
-/

namespace Z80

/-- The interrupt request lines. -/
structure Lines where
  maskable : Bool := false
  nonMaskable : Bool := false
deriving DecidableEq, Inhabited

namespace Lines

/-- Raises the maskable request. -/
def raiseMaskable (lines : Lines) : Lines :=
  { lines with maskable := true }

/-- Lowers the maskable request. -/
def lowerMaskable (lines : Lines) : Lines :=
  { lines with maskable := false }

/-- Raises the non-maskable request. -/
def raiseNonMaskable (lines : Lines) : Lines :=
  { lines with nonMaskable := true }

/-- Lowers the non-maskable request. -/
def lowerNonMaskable (lines : Lines) : Lines :=
  { lines with nonMaskable := false }

end Lines

/-- The devices. Reads yield the queued bytes in turn and then the last one for ever; an idle bus
floats high. -/
structure Devices where
  lines : Lines := {}
  current : Byte := 0xFF
  queue : List Byte := []
deriving DecidableEq, Inhabited

/-- The byte that the next read from a device yields, and the devices after it. -/
def Devices.take (devices : Devices) : Byte × Devices :=
  match devices.queue with
  | [] => (devices.current, devices)
  | value :: queue => (value, { devices with current := value, queue })

end Z80
