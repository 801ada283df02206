import Z80.Proofs.Frame.Changes

/-!
# Listings of opcodes

A listing names opcodes page by page. One that lists an instruction property exactly (`Lists`) tells
from the bytes at the program counter whether a step executes an instruction with that property, and
so which steps leave a part of the register file alone (`Lists.part_step`).
-/

namespace Z80

/-- The listed opcodes of each page. -/
abbrev Listing := Page → List OpcodeRange

/-- An opcode of a page is listed. -/
def Listing.contains (listing : Listing) (page : Page) (opcode : Byte) : Bool :=
  (listing page).any (·.contains opcode)

/-- The listed opcodes are those whose instruction has a property. -/
def Lists (listing : Listing) (property : Instruction → Prop) : Prop :=
  ∀ code : Code, listing.contains code.page code.opcode ↔
    ∃ entry ∈ code.entry?, property entry.instruction

/-- A listing can be checked page by page and opcode by opcode, for a property that does not depend
on the displacement in front of an opcode. -/
theorem lists_of_pages {listing : Listing} {property : Instruction → Prop}
    (hdisplaced : ∀ index displacement opcode,
      property (Page.indexedBitsEntry index displacement opcode).instruction ↔
        property (Page.indexedBitsEntry index 0 opcode).instruction)
    (hpages : ∀ page ∈ Page.all, ∀ opcode, listing.contains page opcode ↔
      ∃ entry ∈ Code.entry? { page, opcode }, property entry.instruction) :
    Lists listing property := by
  rintro ⟨page, opcode, displacement⟩
  refine (hpages page page.mem_all opcode).trans ?_
  cases page with
  | indexedBits index =>
      have hsame := hdisplaced index displacement opcode
      simp only [Code.entry?, Option.mem_some_iff, exists_eq_left', hsame]
  | _ => rfl

/-- A bit operation changes the same parts whatever its displacement is. -/
theorem Page.parts_indexedBitsEntry (index : Index) (displacement opcode : Byte) :
    (Page.indexedBitsEntry index displacement opcode).instruction.parts =
      (Page.indexedBitsEntry index 0 opcode).instruction.parts := by
  unfold indexedBitsEntry bitInstruction
  dsimp only
  split <;> rfl

/-- No bit operation transfers control. -/
theorem Page.branchParts_indexedBitsEntry (index : Index) (displacement opcode : Byte) :
    (Page.indexedBitsEntry index displacement opcode).instruction.branchParts = [] := by
  unfold indexedBitsEntry bitInstruction
  dsimp only
  split <;> rfl

theorem lists_parts {listing : Listing} (property : List Part → Prop)
    (hpages : ∀ page ∈ Page.all, ∀ opcode, listing.contains page opcode ↔
      ∃ entry ∈ Code.entry? { page, opcode }, property entry.instruction.parts) :
    Lists listing (property ·.parts) :=
  lists_of_pages
    (fun index displacement opcode => by rw [Page.parts_indexedBitsEntry index displacement])
    hpages

theorem lists_branchParts {listing : Listing} (property : List Part → Prop)
    (hpages : ∀ page ∈ Page.all, ∀ opcode, listing.contains page opcode ↔
      ∃ entry ∈ Code.entry? { page, opcode }, property entry.instruction.branchParts) :
    Lists listing (property ·.branchParts) :=
  lists_of_pages
    (fun _ _ _ => by rw [Page.branchParts_indexedBitsEntry, Page.branchParts_indexedBitsEntry])
    hpages

/-- An instruction that is no bit operation. -/
theorem lists_instruction {listing : Listing} {instruction : Instruction}
    (hother : ∀ opcode target copy, Page.bitInstruction opcode target copy ≠ instruction)
    (hpages : ∀ page ∈ Page.all, ∀ opcode, listing.contains page opcode ↔
      ∃ entry ∈ Code.entry? { page, opcode }, entry.instruction = instruction) :
    Lists listing (· = instruction) :=
  lists_of_pages (fun _ _ _ => iff_of_false (hother _ _ _) (hother _ _ _)) hpages

/-! ## Steps at listed opcodes -/

/-- A part that an instruction changes is one that it changes in any case, or that it changes since
it transfers control. -/
theorem Instruction.mem_changes {instruction : Instruction} {machine : Machine} {part : Part}
    (hpart : part ∈ instruction.changes machine) :
    part ∈ instruction.parts ∨
      instruction.transfers machine = true ∧ part ∈ instruction.branchParts := by
  unfold changes at hpart
  split at hpart
  case isTrue htransfers => exact (List.mem_append.1 hpart).imp_right (⟨htransfers, ·⟩)
  case isFalse => exact .inl hpart

/-- Transferring control changes the program counter and the stack pointer at most. -/
theorem Instruction.mem_branchParts {instruction : Instruction} {part : Part}
    (hpart : part ∈ instruction.branchParts) : part ∈ [.stackPointer, .programCounter] := by
  cases instruction with
  | jump | jumpIf | jumpRelative | jumpRelativeIf | jumpCounted | jumpTo => exact .tail _ hpart
  | call | callIf | restart | ret | retIf | retNonMaskable | retMaskable => exact hpart
  | block op direction repeats =>
      cases repeats with
      | true => exact .tail _ hpart
      | false => exact absurd hpart List.not_mem_nil
  | _ => exact absurd hpart List.not_mem_nil

/-- So every other part is changed in any case. -/
theorem Instruction.mem_parts_of_changes {instruction : Instruction} {machine : Machine}
    {part : Part} (hother : part ∉ [.stackPointer, .programCounter])
    (hpart : part ∈ instruction.changes machine) : part ∈ instruction.parts := by
  rcases mem_changes hpart with hparts | ⟨_, hbranch⟩
  · exact hparts
  · exact absurd (mem_branchParts hbranch) hother

namespace Machine

variable {machine : Machine} {listing : Listing} {property : Instruction → Prop} {part : Part}

/-- The step executes a listed opcode. -/
def ExecutesIn (machine : Machine) (listing : Listing) : Prop :=
  machine.Executes ∧ listing.contains (machine.memory.code machine.registers.pc).page
    (machine.memory.code machine.registers.pc).opcode

theorem executesIn_iff (hlists : Lists listing property) :
    machine.ExecutesIn listing ↔ machine.Executes ∧
      ∃ entry ∈ machine.memory.entryAt? machine.registers.pc, property entry.instruction :=
  and_congr_right fun _ => hlists _

/-- A step changes a part only if it enters an interrupt routine and calls change it, or if reading
an instruction changes it, or if the instruction executed does. -/
theorem part_step (machine : Machine) (part : Part)
    (hcalls : part ∈ [.stackPointer, .programCounter] → ¬machine.EntersInterrupt)
    (hreads : part ∉ [.programCounter, .refresh])
    (hexecutes : machine.Executes → ∀ entry ∈ machine.memory.entryAt? machine.registers.pc,
      part ∉ entry.instruction.changes machine) :
    machine.step.registers.part part = machine.registers.part part := by
  obtain ⟨parts, hchanges, hchanged⟩ := machine.step_changedIn
  refine hchanged part fun hpart => ?_
  cases hchanges with
  | enters henters => exact hcalls hpart henters
  | idle => exact absurd hpart List.not_mem_nil
  | unhandled => exact hreads hpart
  | executed hexecuting hentry =>
      exact (List.mem_append.1 hpart).elim hreads (hexecutes hexecuting _ hentry)

/-- A part that neither calls nor reading instructions change stays as it is in every step but those
that execute an opcode listed for it. -/
theorem part_step_of_not_executesIn (hlists : Lists listing (part ∈ ·.parts))
    (hcalls : part ∉ [.stackPointer, .programCounter])
    (hreads : part ∉ [.programCounter, .refresh])
    (hnot : ¬machine.ExecutesIn listing) :
    machine.step.registers.part part = machine.registers.part part := by
  refine machine.part_step part (fun hpart => absurd hpart hcalls) hreads ?_
  intro hexecutes entry hentry hchanged
  have hparts := Instruction.mem_parts_of_changes hcalls hchanged
  exact hnot ((executesIn_iff hlists).2 ⟨hexecutes, entry, hentry, hparts⟩)

end Machine

end Z80
