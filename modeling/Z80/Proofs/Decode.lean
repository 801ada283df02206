import Z80.Proofs.Step

/-!
# Which instruction the memory spells

The code that a step reads depends only on the memory from the program counter on. `Memory.code` is
that code, and `fetchCode_fst` says that the machine reads it. The other way round, instructions of
one kind stand on few pages, so that a few bytes are all that can spell them (`SpelledBy`).
-/

namespace Z80

namespace Memory

/-- The code behind the leading byte of an index register. -/
def indexedCode (memory : Memory) (address : Word) (index : Index) : Code :=
  if memory.read (address + 1) = 0xCB then
    { page := .indexedBits index
      opcode := memory.read (address + 3)
      displacement := memory.read (address + 2) }
  else { page := .indexed index, opcode := memory.read (address + 1) }

/-- The code at an address. -/
def code (memory : Memory) (address : Word) : Code :=
  if memory.read address = 0xCB then { page := .bits, opcode := memory.read (address + 1) }
  else if memory.read address = 0xED then
    { page := .extended, opcode := memory.read (address + 1) }
  else if memory.read address = Index.leadByte .ix then memory.indexedCode address .ix
  else if memory.read address = Index.leadByte .iy then memory.indexedCode address .iy
  else { page := .unprefixed, opcode := memory.read address }

/-- The entry that the bytes at an address select, if they select one. -/
def entryAt? (memory : Memory) (address : Word) : Option Entry :=
  Code.entry? (memory.code address)

end Memory

namespace Machine

variable (machine : Machine)

theorem fetchIndexedOpcode_fst (index : Index) :
    ((machine.jump (machine.registers.pc + 1)).fetchIndexedOpcode index).1 =
      machine.memory.indexedCode machine.registers.pc index := by
  have hsecond : machine.registers.pc + 1 + 1 = machine.registers.pc + 2 := BitVec.add_assoc ..
  have hthird : machine.registers.pc + 2 + 1 = machine.registers.pc + 3 := BitVec.add_assoc ..
  unfold fetchIndexedOpcode Memory.indexedCode
  by_cases hbits : machine.memory.read (machine.registers.pc + 1) = 0xCB
  · rw [if_pos hbits, ← hthird, ← hsecond]
    exact congrArg Prod.fst (if_pos hbits)
  · rw [if_neg hbits]
    exact congrArg Prod.fst (if_neg hbits)

/-- A step reads the code at the program counter. -/
theorem fetchCode_fst :
    machine.fetchCode.1 = machine.memory.code machine.registers.pc := by
  have hix := machine.fetchIndexedOpcode_fst .ix
  have hiy := machine.fetchIndexedOpcode_fst .iy
  rw [Memory.code, ← hix, ← hiy]
  -- The branches differ in what the machine does besides, which the first component leaves out.
  unfold fetchCode fetch
  simp only [apply_ite Prod.fst]
  rfl

end Machine

/-! ## Which bytes spell an instruction -/

/-- The instructions with a property are those of some opcodes on the page without leading bytes and
of some on the page of extensions. -/
structure SpelledBy (property : Instruction → Prop) (plain extended : List Byte) : Prop where
  plain : ∀ opcode, opcode ∈ plain ↔
    ∃ entry ∈ Page.unprefixedEntry? opcode, property entry.instruction
  extended : ∀ opcode, opcode ∈ extended ↔
    ∃ entry ∈ Page.extendedEntry? opcode, property entry.instruction
  indexed : ∀ index opcode, ∀ entry ∈ Page.indexedEntry? index opcode,
    ¬property entry.instruction
  bits : ∀ opcode target copy, ¬property (Page.bitInstruction opcode target copy)

namespace SpelledBy

variable {property : Instruction → Prop} {plain extended : List Byte}

/-- A byte that leads to another page spells nothing by itself. -/
theorem not_spelled (hspelled : SpelledBy property plain extended) {first second : Byte}
    (hnone : Page.unprefixedEntry? first = none) (hlead : first ≠ 0xED) :
    ¬(first ∈ plain ∨ first = 0xED ∧ second ∈ extended) := by
  rintro (hplain | ⟨hfirst, _⟩)
  · obtain ⟨entry, hentry, _⟩ := (hspelled.plain first).1 hplain
    rw [hnone] at hentry
    exact Option.not_mem_none entry hentry
  · exact hlead hfirst

theorem not_indexedCode (hspelled : SpelledBy property plain extended) (memory : Memory)
    (address : Word) (index : Index) :
    ¬∃ entry ∈ Code.entry? (memory.indexedCode address index), property entry.instruction := by
  rintro ⟨entry, hentry, hproperty⟩
  unfold Memory.indexedCode at hentry
  split at hentry
  · obtain rfl := Option.some.inj hentry
    exact hspelled.bits _ _ _ hproperty
  · exact hspelled.indexed index _ entry hentry hproperty

/-- The bytes at an address select an instruction with the property exactly if they spell one. -/
theorem entryAt_iff (hspelled : SpelledBy property plain extended) (memory : Memory)
    (address : Word) :
    (∃ entry ∈ memory.entryAt? address, property entry.instruction) ↔
      memory.read address ∈ plain ∨
        memory.read address = 0xED ∧ memory.read (address + 1) ∈ extended := by
  unfold Memory.entryAt? Memory.code
  split
  case isTrue hlead =>
    rw [hlead]
    refine iff_of_false ?_ (hspelled.not_spelled rfl (by decide))
    rintro ⟨entry, hentry, hproperty⟩
    obtain rfl := Option.some.inj hentry
    exact hspelled.bits _ _ _ hproperty
  split
  case isTrue hlead =>
    rw [hlead, hspelled.extended]
    have hplain : (0xED : Byte) ∉ plain := fun h =>
      have ⟨entry, hentry, _⟩ := (hspelled.plain 0xED).1 h
      Option.not_mem_none entry hentry
    simp only [hplain, false_or, true_and]
    rfl
  case isFalse hextended =>
    split
    case isTrue hlead =>
      rw [hlead]
      exact iff_of_false (hspelled.not_indexedCode memory address .ix)
        (hspelled.not_spelled rfl (by decide))
    split
    case isTrue hlead =>
      rw [hlead]
      exact iff_of_false (hspelled.not_indexedCode memory address .iy)
        (hspelled.not_spelled rfl (by decide))
    case isFalse =>
      rw [hspelled.plain, or_iff_left fun h => hextended h.1]
      rfl

end SpelledBy

/-! ## The returns from interrupts -/

/-- The opcodes of the return from a non-maskable interrupt, on the page of extensions. -/
def retNonMaskableOpcodes : List Byte :=
  [0x45, 0x55, 0x5D, 0x65, 0x6D, 0x75, 0x7D]

theorem extendedEntry_retNonMaskable :
    ∀ opcode ∈ retNonMaskableOpcodes,
      Page.extendedEntry? opcode = some ⟨.retNonMaskable, "RETN", .fixed 14⟩ := by
  decide

theorem spelledBy_retMaskable : SpelledBy (· = .retMaskable) [] [0x4D] where
  plain := by decide +kernel
  extended := by decide +kernel
  indexed := by
    intro index
    cases index <;> decide +kernel
  bits := by
    intro opcode target copy
    unfold Page.bitInstruction
    split <;> exact nofun

/-- The two bytes that spell the return from a maskable interrupt are the only ones that do. -/
theorem Memory.entryAt_retMaskable_iff (memory : Memory) (address : Word) :
    (∃ entry, memory.entryAt? address = some entry ∧ entry.instruction = .retMaskable) ↔
      memory.read address = 0xED ∧ memory.read (address + 1) = 0x4D := by
  have hspelled := spelledBy_retMaskable.entryAt_iff memory address
  simp only [List.not_mem_nil, false_or, List.mem_singleton] at hspelled
  exact hspelled

end Z80
