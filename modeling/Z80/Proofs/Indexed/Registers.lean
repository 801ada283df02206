import Z80.Code
import Z80.Proofs.Indexed.Exchange

/-!
# The register forms on the index pages

An opcode on the page of an index register that has no displaced operand is the opcode of the same
number without leading bytes, with the index register in the place of `HL` (`Entry.Renames`). So it
does what that one does to a machine whose `HL` and index register are exchanged, and takes four
cycles more (`refinesUnprefixed`).
-/

namespace Z80

/-- The opcodes on the page of an index register that have no displaced operand: word arithmetic and
word loads, the halves in counting, loads and arithmetic, and the stack and jumps. -/
def Page.registerForms : List Byte :=
  [0x09, 0x19, 0x29, 0x39, 0x21, 0x22, 0x23, 0x24, 0x25, 0x26, 0x2A, 0x2B, 0x2C, 0x2D, 0x2E,
    0x44, 0x45, 0x4C, 0x4D, 0x54, 0x55, 0x5C, 0x5D,
    0x60, 0x61, 0x62, 0x63, 0x64, 0x65, 0x67, 0x68, 0x69, 0x6A, 0x6B, 0x6C, 0x6D, 0x6F, 0x7C, 0x7D,
    0x84, 0x85, 0x8C, 0x8D, 0x94, 0x95, 0x9C, 0x9D, 0xA4, 0xA5, 0xAC, 0xAD, 0xB4, 0xB5, 0xBC, 0xBD,
    0xE1, 0xE3, 0xE5, 0xE9, 0xF9]

/-! ## Costs -/

/-- The cycles that are spent before an instruction executes. -/
def Cost.cycles : Cost → BitVec 32
  | .fixed cycles => cycles
  | .dynamic => 0

/-- Cycles may be spent one after the other, unless their sum wraps. -/
theorem Cycles.spend_spend (cycles : Cycles) {first second : BitVec 32}
    (hsum : first.toNat + second.toNat < 0x100000000) :
    (cycles.spend first).spend second = cycles.spend (first + second) := by
  have hwidth : (first + second).setWidth 64 = first.setWidth 64 + second.setWidth 64 := by
    bv_omega
  unfold spend
  rw [hwidth, Cycles.mk.injEq]
  exact ⟨BitVec.add_assoc .., BitVec.add_assoc ..⟩

theorem Machine.perform_eq (machine : Machine) (entry : Entry) :
    machine.perform entry = (machine.spend entry.cost.cycles).execute entry.instruction := by
  unfold perform
  cases hcost : entry.cost with
  | fixed cycles => rfl
  | dynamic => simp [Cost.cycles, spend, Cycles.spend]

/-! ## Renamed entries -/

/-- An entry whose instruction is that of another one with `HL` and an index register exchanged, and
which costs four cycles more. -/
structure Entry.Renames (index : Index) (plain entry : Entry) : Prop where
  instruction : entry.instruction = plain.instruction.exchanged index
  names : plain.instruction.namesRegisters = true
  cost : entry.cost.cycles = plain.cost.cycles + 4
  small : plain.cost.cycles.toNat < 32

/-- `Entry.Renames` is decidable by comparing instructions and costs. -/
instance (index : Index) (plain entry : Entry) : Decidable (plain.Renames index entry) :=
  decidable_of_iff
    (entry.instruction = plain.instruction.exchanged index ∧
      plain.instruction.namesRegisters = true ∧
      entry.cost.cycles = plain.cost.cycles + 4 ∧ plain.cost.cycles.toNat < 32)
    ⟨fun ⟨instruction, names, cost, small⟩ => ⟨instruction, names, cost, small⟩,
      fun ⟨instruction, names, cost, small⟩ => ⟨instruction, names, cost, small⟩⟩

/-- A renamed entry does what the plain one does to a machine with the registers exchanged. -/
theorem Entry.Renames.perform_eq {index : Index} {plain entry : Entry}
    (hrenames : plain.Renames index entry) (machine : Machine) :
    machine.perform entry =
      (((machine.exchangeIndex index).perform plain).exchangeIndex index).spend 4 := by
  have hsmall := hrenames.small
  have hsum : plain.cost.cycles.toNat + (4 : BitVec 32).toNat < 0x100000000 := by
    have hfour : (4 : BitVec 32).toNat = 4 := rfl
    omega
  -- Exchanging twice leaves the registers as they are, and the four cycles are spent apart.
  have hspend : machine.spend entry.cost.cycles =
      ((machine.exchangeIndex index).spend plain.cost.cycles).reindex index 4 := by
    unfold Machine.reindex Machine.exchangeIndex Machine.update Machine.spend
    rw [hrenames.cost]
    simp only [Registers.exchangeIndex_exchangeIndex, Cycles.spend_spend _ hsum]
  rw [Machine.perform_eq, hrenames.instruction, hspend,
    Machine.execute_reindex _ _ _ hrenames.names, Machine.perform_eq]
  rfl

/-- Without a displaced operand, an entry renames the plain one of the same opcode. -/
theorem Page.renames_indexedEntry (index : Index) :
    ∀ opcode : Byte, ∀ entry ∈ Page.indexedEntry? index opcode,
      .displaced index ∉ entry.instruction.byteOperands →
        ∃ plain ∈ Page.unprefixedEntry? opcode, plain.Renames index entry := by
  cases index <;> decide +kernel

theorem Page.mem_registerForms_iff (index : Index) :
    ∀ opcode : Byte, opcode ∈ Page.registerForms ↔
      ∃ entry ∈ Page.indexedEntry? index opcode,
        .displaced index ∉ entry.instruction.byteOperands := by
  cases index <;> decide +kernel

/-- The register forms are the opcodes on an index register's page without a displaced operand. Each
does to every machine what the plain opcode does with `HL` and the index register exchanged before
and after, in four cycles more. -/
structure RefinesUnprefixed (index : Index) : Prop where
  forms : ∀ opcode : Byte, opcode ∈ Page.registerForms ↔
    ∃ entry ∈ Page.indexedEntry? index opcode,
      .displaced index ∉ entry.instruction.byteOperands
  refines : ∀ opcode ∈ Page.registerForms,
    ∃ entry ∈ Page.indexedEntry? index opcode, ∃ plain ∈ Page.unprefixedEntry? opcode,
      ∀ machine : Machine, machine.perform entry =
        (((machine.exchangeIndex index).perform plain).exchangeIndex index).spend 4

/-- The register forms on an index register's page refine the opcodes without leading bytes. -/
theorem refinesUnprefixed (index : Index) : RefinesUnprefixed index where
  forms := Page.mem_registerForms_iff index
  refines := by
    intro opcode hform
    obtain ⟨entry, hentry, hregister⟩ := (Page.mem_registerForms_iff index opcode).1 hform
    obtain ⟨plain, hplain, hrenames⟩ :=
      Page.renames_indexedEntry index opcode entry hentry hregister
    exact ⟨entry, hentry, plain, hplain, hrenames.perform_eq⟩

end Z80
