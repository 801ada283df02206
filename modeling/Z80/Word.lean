/-!
# Bytes and words

The processor handles eight-bit bytes and sixteen-bit words. A word is the pair of its high and
low bytes, and `joinBytes_highByte_lowByte` with its two partners says that taking a word apart
and joining two bytes undo each other. All arithmetic wraps at the width.
-/

namespace Z80

/-- An eight-bit quantity: the contents of a register or a memory cell, an opcode, or what passes to
and from a device. -/
abbrev Byte := BitVec 8

/-- A sixteen-bit quantity: an address, a device number or a register pair. -/
abbrev Word := BitVec 16

/-- Bits 8 to 15 of a word. -/
def highByte (word : Word) : Byte :=
  word.extractLsb' 8 8

/-- Bits 0 to 7 of a word. -/
def lowByte (word : Word) : Byte :=
  word.extractLsb' 0 8

/-- The word with the given high and low bytes. -/
def joinBytes (high low : Byte) : Word :=
  high ++ low

@[simp] theorem highByte_joinBytes (high low : Byte) : highByte (joinBytes high low) = high := by
  unfold highByte joinBytes
  exact BitVec.extractLsb'_append_eq_left

@[simp] theorem lowByte_joinBytes (high low : Byte) : lowByte (joinBytes high low) = low := by
  unfold lowByte joinBytes
  exact BitVec.extractLsb'_append_eq_right

@[simp] theorem joinBytes_highByte_lowByte (word : Word) :
    joinBytes (highByte word) (lowByte word) = word := by
  unfold joinBytes highByte lowByte
  rw [BitVec.extractLsb'_append_extractLsb'_eq_extractLsb' (by decide)]
  simp

theorem toNat_joinBytes (high low : Byte) :
    (joinBytes high low).toNat = low.toNat + 256 * high.toNat := by
  rw [joinBytes, BitVec.toNat_append, ← Nat.shiftLeft_add_eq_or_of_lt low.isLt, Nat.shiftLeft_eq]
  omega

/-- The word with its high byte replaced. -/
def withHigh (word : Word) (value : Byte) : Word :=
  joinBytes value (lowByte word)

/-- The word with its low byte replaced. -/
def withLow (word : Word) (value : Byte) : Word :=
  joinBytes (highByte word) value

/-- A byte holding one bit in its lowest place. -/
def unitByte (bit : Bool) : Byte :=
  (BitVec.ofBool bit).setWidth 8

/-- The address at a two's-complement displacement from a base. -/
def displaced (base : Word) (displacement : Byte) : Word :=
  base + displacement.signExtend 16

/-- The distance of a relative branch: 0 to 129 lead forward by as much, and 130 to 255 lead back
by 126 to 1. -/
def branchDistance (offset : Byte) : Word :=
  if offset.toNat ≤ 129 then offset.setWidth 16 else offset.setWidth 16 - 256

end Z80
