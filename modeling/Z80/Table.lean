import Z80.Code
import Z80.Error

/-!
# Opcode tables

The instruction set is kept in tables, one for each page, that have a slot for every opcode. Opcodes
are registered one after the other, and one whose slot is taken cannot be registered again
(`Table.insert`). `Table.build` registers the whole instruction set, run by run.
-/

namespace Z80

/-! ## Tables -/

/-- A slot: the page and the opcode that it is for. -/
abbrev Slot := Page × Byte

/-- Tables with a slot for every opcode of every page. -/
structure Table (α : Type) where
  slots : Slot → Option α := fun _ => none

namespace Table

variable {α : Type} (table : Table α)

/-- What an opcode of a page was registered with. -/
def lookup (page : Page) (opcode : Byte) : Option α :=
  table.slots (page, opcode)

/-- The opcodes of a page whose slots are taken, in ascending order. -/
def coverage (page : Page) : List Byte :=
  ((List.range 256).map (BitVec.ofNat 8)).filter fun opcode => (table.lookup page opcode).isSome

/-- The tables with a slot filled. -/
def fill (slot : Slot) (content : α) : Table α where
  slots other := if other = slot then some content else table.slots other

@[simp] theorem slots_fill_same (slot : Slot) (content : α) :
    (table.fill slot content).slots slot = some content :=
  if_pos rfl

theorem slots_fill_other {slot other : Slot} (content : α) (hother : other ≠ slot) :
    (table.fill slot content).slots other = table.slots other :=
  if_neg hother

/-- Fills a slot, unless it is taken. -/
def insert (slot : Slot) (content : α) : Except Error (Table α) :=
  if (table.slots slot).isSome then .error (.opcodeTaken slot.1 slot.2)
  else .ok (table.fill slot content)

/-- Fills slots one after the other, until there is one that is taken. -/
def register (content : Slot → α) (slots : List Slot) : Except Error (Table α) :=
  slots.foldlM (fun table slot => table.insert slot (content slot)) table

end Table

/-! ## Runs of opcodes -/

/-- The three-bit field of an opcode that selects an operand. -/
inductive OperandField where
  | source
  | target

/-- Opcodes that are registered together. -/
inductive OpcodeRun where
  | one (opcode : Byte)
  /-- The opcodes that differ in an operand. The one that names the cell at `HL` may be left out. -/
  | operands (first : Byte) (field : OperandField) (cell : Bool)
  /-- The opcodes that differ in a register pair. -/
  | pairs (first : Byte)

/-- The opcodes of a run, in the order in which they are registered. -/
def OpcodeRun.opcodes : OpcodeRun → List Byte
  | .one opcode => [opcode]
  | .operands first field cell =>
      let shift := match field with
        | .source => 0
        | .target => 3
      ((List.range 8).filter fun select => select != 6 || cell).map fun select =>
        first + BitVec.ofNat 8 select <<< shift
  | .pairs first => (List.range 4).map fun pair => first + BitVec.ofNat 8 pair <<< 4

example : (OpcodeRun.operands 0x04 .target false).opcodes =
    [0x04, 0x0C, 0x14, 0x1C, 0x24, 0x2C, 0x3C] := by decide

namespace Page

/-- Runs that are registered again and again, with the row as the only difference. -/
def rows (runs : Byte → List OpcodeRun) : List OpcodeRun :=
  (List.range 8).flatMap fun row => runs (BitVec.ofNat 8 row <<< 3)

/-- The opcodes of the second quadrant. -/
def loadOpcodes : List Byte :=
  (List.range 64).map fun fields => 0x40 + BitVec.ofNat 8 fields

/-- The runs of a page in the order in which they are registered. -/
def runs : Page → List OpcodeRun
  | .unprefixed =>
      [0x00, 0x08, 0x10, 0x18, 0x20, 0x28, 0x30, 0x38].map .one ++
        [0x01, 0x09, 0x03, 0x0B].map .pairs ++
        [0x02, 0x12, 0x0A, 0x1A, 0x22, 0x2A, 0x32, 0x3A].map .one ++
        [.operands 0x04 .target true, .operands 0x05 .target true, .operands 0x06 .target true] ++
        [0x07, 0x0F, 0x17, 0x1F, 0x27, 0x2F, 0x37, 0x3F].map .one ++
        loadOpcodes.map .one ++
        rows (fun row => [.operands (0x80 + row) .source true]) ++
        rows (fun row => [0xC0 + row, 0xC2 + row, 0xC4 + row, 0xC6 + row, 0xC7 + row].map .one) ++
        [.pairs 0xC1, .pairs 0xC5] ++
        [0xC3, 0xC9, 0xCD, 0xD3, 0xDB, 0xD9, 0xE3, 0xE9, 0xEB, 0xF3, 0xF9, 0xFB].map .one
  | .bits =>
      rows (fun row => [.operands row .source true]) ++
        rows (fun row =>
          [.operands (0x40 + row) .source true, .operands (0x80 + row) .source true,
            .operands (0xC0 + row) .source true])
  | .extended =>
      [.operands 0x40 .target false, .one 0x70, .operands 0x41 .target false, .one 0x71] ++
        [0x42, 0x4A, 0x43, 0x4B].map .pairs ++
        [.operands 0x44 .target true] ++
        rows (fun row => [.one (0x45 + row)]) ++
        rows (fun row => [.one (0x46 + row)]) ++
        [0x47, 0x4F, 0x57, 0x5F, 0x67, 0x6F].map .one ++
        [0xA0, 0xA1, 0xA2, 0xA3, 0xA8, 0xA9, 0xAA, 0xAB].map .one ++
        [0xB0, 0xB1, 0xB2, 0xB3, 0xB8, 0xB9, 0xBA, 0xBB].map .one
  | .indexed _ =>
      [.pairs 0x09] ++
        [0x21, 0x22, 0x2A, 0x23, 0x2B].map .one ++
        [0x24, 0x2C, 0x34, 0x25, 0x2D, 0x35, 0x26, 0x2E, 0x36].map .one ++
        (loadOpcodes.filter namesIndex).map .one ++
        rows (fun row => [0x84 + row, 0x85 + row, 0x86 + row].map .one) ++
        [0xE1, 0xE3, 0xE5, 0xE9, 0xF9].map .one
  | .indexedBits _ => (List.range 256).map fun opcode => .one (BitVec.ofNat 8 opcode)
where
  /-- A load has `H`, `L` or the cell at `HL` in one of its fields, and not the cell in both. -/
  namesIndex (opcode : Byte) : Bool :=
    opcode != 0x76 &&
      ([4, 5, 6].contains (Opcode.row opcode).val || [4, 5, 6].contains (Opcode.column opcode).val)

/-- The opcodes of a page in the order in which they are registered. -/
def registered (page : Page) : List Byte :=
  page.runs.flatMap (·.opcodes)

/-- Every page once, in the order in which they are filled. -/
def fillingOrder : List Page :=
  [.unprefixed, .bits, .extended, .indexed .ix, .indexed .iy, .indexedBits .ix, .indexedBits .iy]

end Page

namespace Table

/-- The slots of the instruction set in the order in which they are filled. -/
def registrations : List Slot :=
  Page.fillingOrder.flatMap fun page => page.registered.map (page, ·)

/-- The tables of the instruction set. A slot holds what its opcode selects, for each displacement
that may come before it. -/
def build : Except Error (Table (Byte → Option Entry)) :=
  ({} : Table (Byte → Option Entry)).register
    (fun slot displacement => Code.entry? { page := slot.1, opcode := slot.2, displacement })
    registrations

end Table

end Z80
