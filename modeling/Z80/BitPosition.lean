import Z80.Word

/-!
# Bit positions

The position of one bit in a byte, and the byte with that bit set or cleared.
-/

namespace Z80

/-- A bit position in a byte, counted from the lowest. -/
abbrev BitPosition := Fin 8

namespace BitPosition

/-- The position that a number names, if a byte has that many bits. -/
def ofByte? (value : Byte) : Option BitPosition :=
  if h : value.toNat < 8 then some ⟨value.toNat, h⟩ else none

/-- The byte with only this bit set. -/
def mask (position : BitPosition) : Byte :=
  1 <<< position.val

/-- The byte with this bit set. -/
def setIn (position : BitPosition) (value : Byte) : Byte :=
  value ||| mask position

/-- The byte with this bit cleared. -/
def clearIn (position : BitPosition) (value : Byte) : Byte :=
  value &&& ~~~mask position

/-- The bit of a byte at this position. -/
def testIn (position : BitPosition) (value : Byte) : Bool :=
  value.getLsbD position

end BitPosition

end Z80
