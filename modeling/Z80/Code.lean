import Z80.Page.Bits
import Z80.Page.Extended
import Z80.Page.Indexed
import Z80.Page.Unprefixed

/-!
# Codes

A code is what selects an instruction: a page and an opcode, and on some pages a displacement that
comes before the opcode. `Code.entry?` is the whole instruction set.
-/

namespace Z80

/-- A page, the opcode looked up on it, and the displacement read before the opcode, if any. -/
structure Code where
  page : Page
  opcode : Byte
  displacement : Byte := 0
deriving DecidableEq, Inhabited

namespace Code

/-- The entry that a code selects. -/
def entry? (code : Code) : Option Entry :=
  match code.page with
  | .unprefixed => Page.unprefixedEntry? code.opcode
  | .bits => some (Page.bitsEntry code.opcode)
  | .extended => Page.extendedEntry? code.opcode
  | .indexed index => Page.indexedEntry? index code.opcode
  | .indexedBits index => some (Page.indexedBitsEntry index code.displacement code.opcode)

/-- What holds of the entries of every page holds of the whole instruction set. -/
theorem forall_entry (property : Entry → Prop)
    (unprefixed : ∀ opcode, ∀ entry ∈ Page.unprefixedEntry? opcode, property entry)
    (bits : ∀ opcode, property (Page.bitsEntry opcode))
    (extended : ∀ opcode, ∀ entry ∈ Page.extendedEntry? opcode, property entry)
    (indexed : ∀ index opcode, ∀ entry ∈ Page.indexedEntry? index opcode, property entry)
    (indexedBits : ∀ index displacement opcode,
      property (Page.indexedBitsEntry index displacement opcode))
    {code : Code} {entry : Entry} (hentry : code.entry? = some entry) : property entry := by
  obtain ⟨page, opcode, displacement⟩ := code
  cases page with
  | unprefixed => exact unprefixed opcode entry hentry
  | extended => exact extended opcode entry hentry
  | indexed index => exact indexed index opcode entry hentry
  | bits => exact Option.some.inj hentry ▸ bits opcode
  | indexedBits index => exact Option.some.inj hentry ▸ indexedBits index displacement opcode

/-- The bytes that spell the code in memory. -/
def bytes (code : Code) : List Byte :=
  if code.page.displacementFirst then code.page.leadBytes ++ [code.displacement, code.opcode]
  else code.page.leadBytes ++ [code.opcode]

/-- The bytes that a trace shows as the opcode. Where a displacement comes first, it and the opcode
behind it are shown as operands. -/
def shownBytes (code : Code) : List Byte :=
  if code.page.displacementFirst then code.page.leadBytes
  else code.page.leadBytes ++ [code.opcode]

end Code

/-- The opcodes that have an entry on a page, in ascending order. -/
def Page.coverage (page : Page) : List Byte :=
  ((List.range 256).map (BitVec.ofNat 8)).filter fun opcode =>
    (Code.entry? { page, opcode }).isSome

end Z80
