import Z80.Hexadecimal
import Z80.Registers

/-!
# Opcode pages

An opcode alone does not select an instruction: the bytes before it choose the page on which it is
looked up. There is one page without leading bytes, one for bit operations, one for extensions, and
for each index register a page of its own with a further page for bit operations.
-/

namespace Z80

/-- The seven opcode pages. -/
inductive Page where
  | unprefixed
  | bits
  | extended
  | indexed (index : Index)
  | indexedBits (index : Index)
deriving DecidableEq, Inhabited

/-- The byte that makes the next opcode refer to an index register. -/
def Index.leadByte : Index → Byte
  | .ix => 0xDD
  | .iy => 0xFD

/-- The register as an assembler writes it. -/
def Index.mnemonic : Index → String
  | .ix => "IX"
  | .iy => "IY"

namespace Page

/-- Every page once. -/
def all : List Page :=
  [.unprefixed, .bits, .indexed .ix, .extended, .indexed .iy, .indexedBits .ix, .indexedBits .iy]

theorem mem_all (page : Page) : page ∈ all := by
  rcases page with _ | _ | _ | ⟨_ | _⟩ | ⟨_ | _⟩ <;> decide

/-- The bytes in front of a page's opcodes. -/
def leadBytes : Page → List Byte
  | .unprefixed => []
  | .bits => [0xCB]
  | .extended => [0xED]
  | .indexed index => [index.leadByte]
  | .indexedBits index => [index.leadByte, 0xCB]

/-- The first byte in front of a page's opcodes, or zero if there is none. -/
def leadByte (page : Page) : Byte :=
  page.leadBytes.headD 0

/-- True for the pages on which a displacement comes before the opcode. -/
def displacementFirst : Page → Bool
  | .indexedBits _ => true
  | _ => false

/-- The name of a page: its leading bytes, if it has any. -/
def name (page : Page) : String :=
  match page with
  | .unprefixed => "unprefixed"
  | page => Hexadecimal.bytes page.leadBytes

end Page

end Z80
