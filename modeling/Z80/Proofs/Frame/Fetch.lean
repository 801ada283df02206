import Z80.Proofs.Frame.Listing

/-!
# How far a step reads

A step that transfers no control goes on behind the instruction that it executes, and how long that
is can be read off the opcode (`Code.length`). Reading the code counts one memory refresh, or two
with leading bytes (`Page.refreshes`). `Machine.readingFrame` says so of every step.
-/

namespace Z80

/-! ## The length of a code -/

/-- The opcodes with a displacement. -/
def displacementOpcodes : Listing
  | .indexed _ =>
      [⟨0x34, 0x36, 1⟩, ⟨0x46, 0x6E, 8⟩, ⟨0x70, 0x75, 1⟩, 0x77, 0x7E, ⟨0x86, 0xBE, 8⟩]
  | .indexedBits _ => [⟨0x00, 0xFF, 1⟩]
  | _ => []

/-- The opcodes with an immediate byte: a value, a device number or the distance of a jump. -/
def immediateByteOpcodes : Listing
  | .unprefixed => [⟨0x06, 0x3E, 8⟩, ⟨0xC6, 0xFE, 8⟩, ⟨0x10, 0x38, 8⟩, 0xD3, 0xDB]
  | .indexed _ => [0x26, 0x2E, 0x36]
  | _ => []

/-- The opcodes with an immediate word: a value or an address. -/
def immediateWordOpcodes : Listing
  | .unprefixed =>
      [⟨0x01, 0x31, 0x10⟩, ⟨0x22, 0x3A, 8⟩, ⟨0xC2, 0xFA, 8⟩, 0xC3, ⟨0xC4, 0xFC, 8⟩, 0xCD]
  | .extended => [⟨0x43, 0x7B, 8⟩]
  | .indexed _ => [0x21, 0x22, 0x2A]
  | _ => []

/-- The length of an instruction: its leading bytes, its opcode, a displacement, and one or two
immediate bytes. -/
def Code.length (code : Code) : Nat :=
  code.page.leadBytes.length + 1 +
    (displacementOpcodes.contains code.page code.opcode).toNat +
    (immediateByteOpcodes.contains code.page code.opcode).toNat +
    2 * (immediateWordOpcodes.contains code.page code.opcode).toNat

theorem Code.fullLength_of_pages :
    ∀ page ∈ [Page.unprefixed, .bits, .extended, .indexed .ix, .indexed .iy], ∀ opcode,
      ∀ entry ∈ Code.entry? { page, opcode },
        Code.fullLength { page, opcode } entry = Code.length { page, opcode } := by
  decide +kernel

theorem Code.length_indexedBits : ∀ index, ∀ opcode : Byte,
    Code.length { page := .indexedBits index, opcode } = 4 := by
  intro index
  cases index <;> decide +kernel

/-- The bytes that spell a code, and the operands that its instruction reads, are as many as its
opcode tells. -/
theorem Code.fullLength_eq {code : Code} {entry : Entry} (hentry : code.entry? = some entry) :
    code.fullLength entry = code.length := by
  obtain ⟨page, opcode, displacement⟩ := code
  cases page with
  | unprefixed => exact fullLength_of_pages .unprefixed (by simp) opcode entry hentry
  | bits => exact fullLength_of_pages .bits (by simp) opcode entry hentry
  | extended => exact fullLength_of_pages .extended (by simp) opcode entry hentry
  | indexed index =>
      exact fullLength_of_pages (.indexed index) (by cases index <;> simp) opcode entry hentry
  | indexedBits index =>
      obtain rfl : Page.indexedBitsEntry index displacement opcode = entry := Option.some.inj hentry
      have hnone := Page.operandCount_bitInstruction_offset index displacement opcode
        (Operand.source opcode).register?
      have hlength : Code.length { page := .indexedBits index, opcode, displacement } = 4 :=
        length_indexedBits index opcode
      rw [hlength, fullLength, Page.indexedBitsEntry, hnone]
      rfl

example : Code.length { page := .indexed .ix, opcode := 0x36 } = 4 := by decide

/-! ## Transferring control -/

/-- The opcodes that may transfer control: jumps, calls and returns, also with a condition, and the
block instructions that repeat. -/
def transferOpcodes : Listing
  | .unprefixed =>
      [⟨0x10, 0x38, 8⟩, ⟨0xC0, 0xF8, 8⟩, ⟨0xC2, 0xFA, 8⟩, 0xC3, ⟨0xC4, 0xFC, 8⟩, ⟨0xC7, 0xFF, 8⟩,
        0xC9, 0xCD, 0xE9]
  | .extended => [⟨0x45, 0x7D, 8⟩, ⟨0xB0, 0xB3, 1⟩, ⟨0xB8, 0xBB, 1⟩]
  | .indexed _ => [0xE9]
  | _ => []

theorem lists_transfers : Lists transferOpcodes (·.branchParts ≠ []) :=
  lists_branchParts (· ≠ []) (by decide +kernel)

/-- No instruction changes the program counter unless it transfers control. -/
theorem lists_programCounter : Lists (fun _ => []) (Part.programCounter ∈ ·.parts) :=
  lists_parts (.programCounter ∈ ·) (by decide +kernel)

/-- An instruction without anything to change on a branch does not branch. -/
theorem Instruction.transfers_eq_false {instruction : Instruction} (machine : Machine)
    (hbranch : instruction.branchParts = []) : instruction.transfers machine = false := by
  cases instruction with
  | block op direction repeats =>
      cases repeats with
      | true => exact absurd hbranch (List.cons_ne_nil _ _)
      | false => rfl
  | jump | jumpIf | jumpRelative | jumpRelativeIf | jumpCounted | jumpTo | call | callIf | restart
  | ret | retIf | retNonMaskable | retMaskable => exact absurd hbranch (List.cons_ne_nil _ _)
  | _ => rfl

/-! ## Memory refreshes -/

/-- The refreshes that reading a code of a page counts. -/
def Page.refreshes : Page → Byte
  | .unprefixed => 1
  | _ => 2

/-- `LD R,A`. -/
def refreshOpcodes : Listing
  | .extended => [0x4F]
  | _ => []

theorem lists_refresh : Lists refreshOpcodes (Part.refresh ∈ ·.parts) :=
  lists_parts (.refresh ∈ ·) (by decide +kernel)

theorem lists_storeRefresh : Lists refreshOpcodes (· = .storeSpecial .refresh) := by
  refine lists_instruction (fun opcode target copy => ?_) (by decide +kernel)
  unfold Page.bitInstruction
  split <;> exact nofun

namespace Machine

variable {machine : Machine}

theorem r_fetchCode (machine : Machine) :
    machine.fetchCode.2.registers.r =
      (machine.registers.refresh (machine.memory.code machine.registers.pc).page.refreshes).r := by
  have hindexed (machine : Machine) (index : Index) :
      (machine.fetchIndexedOpcode index).2.registers.r = (machine.registers.refresh 2).r ∧
        (machine.fetchIndexedOpcode index).1.page.refreshes = 2 := by
    unfold fetchIndexedOpcode
    dsimp only
    split <;> exact ⟨rfl, rfl⟩
  -- Said of the code that is read, both sides split at the same first byte.
  rw [← fetchCode_fst]
  unfold fetchCode fetch
  dsimp only
  split
  · rfl
  split
  · rfl
  split
  · rw [(hindexed _ .ix).1, (hindexed _ .ix).2]
    rfl
  split
  · rw [(hindexed _ .iy).1, (hindexed _ .iy).2]
    rfl
  · rfl

/-! ## Steps -/

/-- The step executes an instruction that transfers no control. -/
def GoesOn (machine : Machine) : Prop :=
  machine.Executes ∧ ∃ entry ∈ machine.memory.entryAt? machine.registers.pc,
    entry.instruction.transfers machine = false

/-- The length of the instruction at the program counter. -/
def codeLength (machine : Machine) : Nat :=
  Code.length (machine.memory.code machine.registers.pc)

/-- The refreshes that reading the code at the program counter counts. -/
def codeRefreshes (machine : Machine) : Byte :=
  Page.refreshes (machine.memory.code machine.registers.pc).page

/-- An opcode that is not listed as transferring control goes on. -/
theorem goesOn_of_not_executesIn (hexecutes : machine.Executes) {entry : Entry}
    (hentry : entry ∈ machine.memory.entryAt? machine.registers.pc)
    (hnot : ¬machine.ExecutesIn transferOpcodes) : machine.GoesOn := by
  refine ⟨hexecutes, entry, hentry, entry.instruction.transfers_eq_false machine ?_⟩
  refine Decidable.byContradiction fun hbranch => ?_
  exact hnot ((executesIn_iff lists_transfers).2 ⟨hexecutes, entry, hentry, hbranch⟩)

theorem pc_step (hgoes : machine.GoesOn) :
    machine.step.registers.pc = machine.registers.pc + BitVec.ofNat 16 machine.codeLength := by
  obtain ⟨hexecutes, entry, hentry, hstays⟩ := hgoes
  have hparts : .programCounter ∉ entry.instruction.parts := fun hpart =>
    Bool.false_ne_true ((lists_programCounter _).2 ⟨entry, hentry, hpart⟩)
  have hchanges : .programCounter ∉ entry.instruction.changes machine := by
    rwa [Instruction.changes, hstays]
  have hkept := (hexecutes.keepsBut hentry).registers .programCounter hchanges
  have hcode : machine.begun.fetchCode.2.registers.pc = machine.behindCode := begun_fetches.pc
  have hlength := Code.fullLength_eq hentry
  calc machine.step.registers.pc
    _ = machine.begun.fetchCode.2.registers.pc +
          BitVec.ofNat 16 entry.instruction.operandCount := hkept
    _ = machine.registers.pc + BitVec.ofNat 16 machine.codeLength := by
        rw [hcode, behindCode, codeLength, ← hlength, Code.fullLength, BitVec.ofNat_add,
          BitVec.add_assoc]

/-- The length of the instructions at which the given number of steps is taken. -/
def runLength (machine : Machine) : Nat → Nat
  | 0 => 0
  | count + 1 => machine.runLength count + (run count machine).codeLength

/-- Steps that transfer no control pass their instructions one after another. -/
theorem pc_run {count : Nat} (hgoes : ∀ passed < count, (run passed machine).GoesOn) :
    (run count machine).registers.pc =
      machine.registers.pc + BitVec.ofNat 16 (machine.runLength count) := by
  induction count with
  | zero => exact (BitVec.add_zero _).symm
  | succ count ih =>
      have hpassed := ih fun passed hlt => hgoes passed (Nat.lt_succ_of_lt hlt)
      rw [run_succ, pc_step (hgoes count (Nat.lt_succ_self count)), hpassed, runLength,
        BitVec.ofNat_add, BitVec.add_assoc]

/-- Only reading the code counts refreshes, in every step that executes. -/
theorem r_step (hexecutes : machine.Executes) (hnot : ¬machine.ExecutesIn refreshOpcodes) :
    machine.step.registers.r = (machine.registers.refresh machine.codeRefreshes).r := by
  have hfetched : machine.begun.fetchCode.2.registers.r =
      (machine.registers.refresh machine.codeRefreshes).r := machine.begun.r_fetchCode
  rw [← hfetched]
  cases hentry : machine.memory.entryAt? machine.registers.pc with
  | none =>
      rw [hexecutes.step_eq_elim, hentry]
      rfl
  | some entry =>
      have hchanges : .refresh ∉ entry.instruction.changes machine := by
        intro hchanged
        have hparts := Instruction.mem_parts_of_changes (by decide) hchanged
        exact hnot ((executesIn_iff lists_refresh).2 ⟨hexecutes, entry, hentry, hparts⟩)
      exact (hexecutes.keepsBut hentry).registers .refresh hchanges

theorem r_step_of_load (hload : machine.ExecutesIn refreshOpcodes) :
    machine.step.registers.r = machine.registers.a := by
  obtain ⟨hexecutes, entry, hentry, hstore⟩ := (executesIn_iff lists_storeRefresh).1 hload
  have hperform (machine : Machine) :
      (machine.perform entry).registers.r = machine.registers.a := by
    unfold perform
    rw [hstore]
    cases entry.cost <;> rfl
  obtain ⟨r, operands, hmoved⟩ := machine.begun.fetchCode_moved
  rw [hexecutes.step_eq_elim, Option.mem_def.1 hentry]
  show (machine.begun.fetchCode.2.perform entry).registers.r = _
  rw [hperform, hmoved]
  rfl

/-- A step that executes nothing counts no refreshes. -/
theorem r_step_of_not_executes (hnot : ¬machine.Executes) :
    machine.step.registers.r = machine.registers.r := by
  obtain ⟨parts, hchanges, hchanged⟩ := machine.step_changedIn
  refine hchanged .refresh ?_
  cases hchanges with
  | enters => decide
  | idle => exact List.not_mem_nil
  | unhandled hunhandled => exact absurd hunhandled.executes hnot
  | executed hexecutes => exact absurd hexecutes hnot

/-- How far a step goes on, and how many refreshes it counts. The program counter wraps at the end
of memory, and the refreshes are counted in the low seven bits of `R`. -/
structure ReadingFrame (machine : Machine) : Prop where
  goesOn : machine.Executes → ∀ entry ∈ machine.memory.entryAt? machine.registers.pc,
    ¬machine.ExecutesIn transferOpcodes → machine.GoesOn
  length : machine.GoesOn →
    machine.step.registers.pc = machine.registers.pc + BitVec.ofNat 16 machine.codeLength
  straight : ∀ count, (∀ passed < count, (run passed machine).GoesOn) →
    (run count machine).registers.pc =
      machine.registers.pc + BitVec.ofNat 16 (machine.runLength count)
  counted : machine.Executes → ¬machine.ExecutesIn refreshOpcodes →
    machine.step.registers.r.setWidth 7 =
      machine.registers.r.setWidth 7 + machine.codeRefreshes.setWidth 7
  topBit : machine.Executes → ¬machine.ExecutesIn refreshOpcodes →
    machine.step.registers.r.msb = machine.registers.r.msb
  loaded : machine.ExecutesIn refreshOpcodes →
    machine.step.registers.r = machine.registers.a
  still : ¬machine.Executes → machine.step.registers.r = machine.registers.r

/-- Every step keeps to the frame. -/
theorem readingFrame (machine : Machine) : machine.ReadingFrame where
  goesOn hexecutes _ hentry := goesOn_of_not_executesIn hexecutes hentry
  length := pc_step
  straight _ := pc_run
  counted hexecutes hnot := by
    rw [r_step hexecutes hnot, Registers.setWidth_r_refresh]
  topBit hexecutes hnot := by
    rw [r_step hexecutes hnot, Registers.msb_r_refresh]
  loaded := r_step_of_load
  still := r_step_of_not_executes

end Machine

end Z80
