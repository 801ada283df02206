import Z80.Proofs.Decode
import Z80.Proofs.Frame.Accesses

/-!
# Which opcodes write to memory

`Page.stores` lists the opcodes that write to memory, page by page, each with the place that it
writes to, and no other opcode does (`Code.store?_eq`). The addresses that an instruction writes to
are those of its place (`Machine.writtenAddresses_accesses`).
-/

namespace Z80

/-! ## Ranges of opcodes -/

/-- The opcodes from one to another, at equal distances. -/
structure OpcodeRange where
  first : Byte
  last : Byte
  distance : Byte

namespace OpcodeRange

/-- A number stands for the range of that one opcode. -/
instance (opcode : Nat) : OfNat OpcodeRange opcode where
  ofNat := { first := BitVec.ofNat 8 opcode, last := BitVec.ofNat 8 opcode, distance := 1 }

/-- An opcode is in a range. -/
def contains (range : OpcodeRange) (opcode : Byte) : Bool :=
  range.first ≤ opcode && opcode ≤ range.last && (opcode - range.first) % range.distance == 0

end OpcodeRange

/-! ## Places that instructions write to -/

/-- A place in memory that an instruction writes to. -/
inductive Store where
  /-- The word that goes on top of the stack. -/
  | push
  /-- The same, under a condition. -/
  | pushIf (condition : Condition)
  /-- The word that is on top of the stack. -/
  | top
  /-- The byte at the address in the instruction. -/
  | direct
  /-- The word at the address in the instruction. -/
  | directWord
  /-- The byte at the address in a register. -/
  | through (pointer : WordRegister)
  /-- The byte at a displacement from an index register. -/
  | displaced (index : Index)
deriving DecidableEq

namespace Machine

variable (machine : Machine)

/-- The address behind the code at the program counter, where the operand bytes begin. -/
def behindCode : Word :=
  machine.registers.pc +
    BitVec.ofNat 16 (machine.memory.code machine.registers.pc).bytes.length

/-- The addresses of a push: the two values that the stack pointer takes on its way down. -/
def pushAddresses : List Word :=
  let first := (machine.window.decrement machine.registers.sp).1
  [first, (machine.window.decrement first).1]

end Machine

/-- The addresses of a place, in the order in which they are written to. A displacement is the third
byte of its instruction. -/
def Store.addresses (machine : Machine) : Store → List Word
  | .push => machine.pushAddresses
  | .pushIf condition =>
      if condition.holds machine.registers.flags then machine.pushAddresses else []
  | .top => [machine.registers.sp, machine.registers.sp + 1]
  | .direct => [machine.readWord machine.behindCode]
  | .directWord =>
      [machine.readWord machine.behindCode, machine.readWord machine.behindCode + 1]
  | .through pointer => [machine.registers.getWord pointer]
  | .displaced index =>
      [machine.cellAddress index (machine.read (machine.registers.pc + 2))]

/-! ## The listing -/

namespace Page

/-- The opcodes that write to memory, with the place that they write to. -/
def stores : Page → List (Store × List OpcodeRange)
  | .unprefixed =>
      [(.push, [0xCD, ⟨0xC5, 0xF5, 0x10⟩, ⟨0xC7, 0xFF, 8⟩]),
        (.pushIf ⟨.zero, false⟩, [0xC4]), (.pushIf ⟨.zero, true⟩, [0xCC]),
        (.pushIf ⟨.carry, false⟩, [0xD4]), (.pushIf ⟨.carry, true⟩, [0xDC]),
        (.pushIf ⟨.parity, false⟩, [0xE4]), (.pushIf ⟨.parity, true⟩, [0xEC]),
        (.pushIf ⟨.sign, false⟩, [0xF4]), (.pushIf ⟨.sign, true⟩, [0xFC]),
        (.top, [0xE3]), (.direct, [0x32]), (.directWord, [0x22]),
        (.through (.pair .bc), [0x02]), (.through (.pair .de), [0x12]),
        (.through (.pair .hl), [⟨0x34, 0x36, 1⟩, ⟨0x70, 0x75, 1⟩, 0x77])]
  | .bits => [(.through (.pair .hl), [⟨0x06, 0x3E, 8⟩, ⟨0x86, 0xFE, 8⟩])]
  | .extended =>
      [(.directWord, [⟨0x43, 0x73, 0x10⟩]), (.through (.pair .de), [⟨0xA0, 0xB8, 8⟩]),
        (.through (.pair .hl), [0x67, 0x6F, ⟨0xA2, 0xBA, 8⟩])]
  | .indexed index =>
      [(.push, [0xE5]), (.top, [0xE3]), (.directWord, [0x22]),
        (.displaced index, [⟨0x34, 0x36, 1⟩, ⟨0x70, 0x75, 1⟩, 0x77])]
  | .indexedBits index => [(.displaced index, [⟨0x00, 0x3F, 1⟩, ⟨0x80, 0xFF, 1⟩])]

/-- The place that an opcode writes to, if it is listed. -/
def store? (page : Page) (opcode : Byte) : Option Store :=
  (page.stores.find? (·.2.any (·.contains opcode))).map Prod.fst

end Page

/-- The place of an operand, if it is in memory. -/
def Operand.store? : Operand → Option Store
  | .reg _ => none
  | .indirect => some (.through (.pair .hl))
  | .displaced index | .offset index _ => some (.displaced index)

/-- The place that an instruction writes to. -/
def Instruction.store? : Instruction → Option Store
  | .load target _ | .loadByte target | .edit _ target _ => target.store?
  | .storeThrough pointer => some (.through pointer)
  | .storeDirect => some .direct
  | .storeWordDirect _ => some .directWord
  | .push _ | .call | .restart _ => some .push
  | .callIf condition => some (.pushIf condition)
  | .exchangeTop _ => some .top
  | .rotateDigit _ | .block .input _ _ => some (.through (.pair .hl))
  | .block .load _ _ => some (.through (.pair .de))
  | _ => none

/-- A bit operation writes to the same place whatever its displacement is. -/
theorem Page.store?_indexedBitsEntry (index : Index) (displacement opcode : Byte) :
    (Page.indexedBitsEntry index displacement opcode).instruction.store? =
      (Page.indexedBitsEntry index 0 opcode).instruction.store? := by
  unfold indexedBitsEntry bitInstruction
  dsimp only
  split <;> rfl

/-- The listing is that of the instruction set. -/
theorem Code.store?_eq (code : Code) :
    code.page.store? code.opcode = code.entry?.bind (·.instruction.store?) := by
  have hpages : ∀ page ∈ Page.all, ∀ opcode, page.store? opcode =
      (Code.entry? { page, opcode }).bind (·.instruction.store?) := by
    decide +kernel
  obtain ⟨page, opcode, displacement⟩ := code
  refine (hpages page page.mem_all opcode).trans ?_
  cases page with
  | indexedBits index => exact (Page.store?_indexedBitsEntry index displacement opcode).symm
  | _ => rfl

/-! ## Displacements -/

/-- The operand that an instruction writes to, and how many operand bytes stand before its own. -/
def Instruction.target? : Instruction → Option (Operand × Nat)
  | .load target source => some (target, source.operandCount)
  | .loadByte target | .edit _ target _ => some (target, 0)
  | _ => none

/-- The displacement of an operand, if it has one, stands before the opcode or else leads the bytes
behind it. -/
def Operand.DisplacedFirst (code : Code) (before : Nat) : Operand → Prop
  | .displaced index => code.page = .indexed index ∧ before = 0
  | .offset index displacement =>
      code.page = .indexedBits index ∧ displacement = code.displacement
  | _ => True

instance (code : Code) (before : Nat) (operand : Operand) :
    Decidable (operand.DisplacedFirst code before) :=
  match operand with
  | .displaced _ | .offset _ _ => inferInstanceAs (Decidable (_ ∧ _))
  | .reg _ | .indirect => inferInstanceAs (Decidable True)

/-- A displacement in a code matters only where it comes before the opcode. -/
theorem Code.entry?_eq_of_plain {code : Code} (hplain : code.page.displacementFirst = false) :
    code.entry? = Code.entry? { page := code.page, opcode := code.opcode } := by
  obtain ⟨page, opcode, displacement⟩ := code
  cases page with
  | indexedBits index => exact absurd hplain nofun
  | _ => rfl

/-- The one operand of a bit operation to which it writes, if it writes at all, is the cell. -/
theorem Page.target_indexedBitsEntry {index : Index} {displacement opcode : Byte}
    {target : Operand × Nat}
    (htarget : target ∈ (indexedBitsEntry index displacement opcode).instruction.target?) :
    target = (.offset index displacement, 0) := by
  unfold indexedBitsEntry bitInstruction at htarget
  dsimp only at htarget
  split at htarget
  case h_2 => exact absurd htarget (Option.not_mem_none target)
  all_goals exact (Option.some.inj htarget).symm

/-- The displacement of an operand that an instruction of the set writes to stands so. -/
theorem Code.target_displacedFirst {code : Code} {entry : Entry}
    (hentry : entry ∈ code.entry?) {operand : Operand} {before : Nat}
    (htarget : (operand, before) ∈ entry.instruction.target?) :
    operand.DisplacedFirst code before := by
  have hpages : ∀ page ∈ Page.all, page.displacementFirst = false → ∀ opcode,
      ∀ target ∈ (Code.entry? { page, opcode }).bind (·.instruction.target?),
        target.1.DisplacedFirst { page, opcode } target.2 := by
    decide +kernel
  cases hfirst : code.page.displacementFirst with
  | false =>
      rw [Code.entry?_eq_of_plain hfirst] at hentry
      have hdisplaced := hpages code.page code.page.mem_all hfirst code.opcode _
        (Option.mem_bind_iff.2 ⟨entry, hentry, htarget⟩)
      cases operand with
      | offset =>
          rw [hdisplaced.1] at hfirst
          exact absurd hfirst nofun
      | _ => exact hdisplaced
  | true =>
      obtain ⟨page, opcode, displacement⟩ := code
      cases page with
      | indexedBits index =>
          obtain rfl := Option.some.inj hentry
          obtain ⟨rfl, rfl⟩ := Prod.mk.inj (Page.target_indexedBitsEntry htarget)
          exact ⟨rfl, rfl⟩
      | _ => exact absurd hfirst nofun

/-- A displacement that comes before the opcode is the third byte. -/
theorem Memory.displacement_code (memory : Memory) (address : Word) {index : Index}
    (hpage : (memory.code address).page = .indexedBits index) :
    (memory.code address).displacement = memory.read (address + 2) := by
  grind [code, indexedCode]

/-! ## Addresses of an instruction -/

namespace Machine

variable {machine : Machine}

theorem behindCode_indexed {index : Index}
    (hpage : (machine.memory.code machine.registers.pc).page = .indexed index) :
    machine.behindCode = machine.registers.pc + 2 := by
  rw [behindCode, Code.bytes, hpage]
  rfl

/-- Writing to an operand writes to its place. -/
theorem writtenAddresses_target {operand : Operand} {before : Nat}
    (hfirst : operand.DisplacedFirst (machine.memory.code machine.registers.pc) before)
    (value : Byte) :
    writtenAddresses ((operand.place machine
        (machine.behindCode + BitVec.ofNat 16 before)).writes value) =
      operand.store?.elim [] (·.addresses machine) := by
  cases operand with
  | reg | indirect => rfl
  | displaced index =>
      obtain ⟨hpage, rfl⟩ := hfirst
      rw [behindCode_indexed hpage, BitVec.add_zero]
      rfl
  | offset index displacement =>
      obtain ⟨hpage, rfl⟩ := hfirst
      rw [Memory.displacement_code _ _ hpage]
      rfl

/-- An instruction of the set writes to its place and nowhere else. -/
theorem writtenAddresses_accesses {entry : Entry}
    (hentry : entry ∈ machine.memory.entryAt? machine.registers.pc) :
    writtenAddresses (entry.instruction.accesses machine machine.behindCode) =
      entry.instruction.store?.elim [] (·.addresses machine) := by
  have htarget {operand : Operand} {before : Nat}
      (hmem : (operand, before) ∈ entry.instruction.target?) :=
    writtenAddresses_target (Code.target_displacedFirst hentry hmem)
  obtain ⟨instruction, name, cost⟩ := entry
  cases instruction with
  | load target source => exact htarget rfl _
  | loadByte target =>
      have haddresses := htarget rfl
        (machine.read (machine.behindCode + BitVec.ofNat 16 target.operandCount))
      rw [BitVec.add_zero] at haddresses
      exact haddresses
  | edit change target copy =>
      have haddresses := htarget rfl
        (machine.registers.edit change (machine.get (target.place machine machine.behindCode))).1
      rw [BitVec.add_zero] at haddresses
      exact haddresses
  | callIf condition =>
      show writtenAddresses (if condition.holds machine.registers.flags then
          machine.pushWrites (machine.behindCode + 2) else []) =
        if condition.holds machine.registers.flags then machine.pushAddresses else []
      split <;> rfl
  | block op =>
      cases op with
      | load | compare | input | output => rfl
  | _ => rfl

end Machine

end Z80
