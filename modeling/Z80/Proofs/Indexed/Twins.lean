import Z80.Code
import Z80.Proofs.Likeness.Execution

/-!
# The two index registers are twins

The pages of the one index register are those of the other with the two exchanged. An entry on the
page of `IX` does to a machine what its twin on the page of `IY` does to the machine with the two
registers exchanged (`twinPages`).
-/

namespace Z80

/-- The registers with the contents of the index registers exchanged. -/
def Registers.swapped (registers : Registers) : Registers :=
  { registers with ix := registers.iy, iy := registers.ix }

/-- The machine with the contents of the index registers exchanged. -/
def Machine.swapped (machine : Machine) : Machine :=
  { machine with registers := machine.registers.swapped }

@[simp] theorem Machine.swapped_swapped (machine : Machine) : machine.swapped.swapped = machine :=
  rfl

/-- The likeness of machines that differ in the names of their index registers alone. -/
def Likeness.swapping : Likeness :=
  { Likeness.same with swapped := true }

namespace Likeness

variable {left right : Machine}

theorem exact_swapping : swapping.Exact :=
  fun halike => halike.symm

theorem swapping_swapped (machine : Machine) : swapping.OfMachines machine machine.swapped :=
  .across machine rfl

/-- Machines that differ in those names alone are the same up to an exchange. -/
theorem OfMachines.eq_swapped (halike : swapping.OfMachines left right) :
    right = left.swapped := by
  have hlog : left.log = right.log := halike.log
  rw [halike.eq_of_exact exact_swapping halike.interrupts.mode.symm, ← hlog]
  rfl

end Likeness

/-! ## Entries -/

/-- Two entries that differ in their names and in the names of the index registers alone. -/
structure Entry.Twins (first second : Entry) : Prop where
  instruction : second.instruction = first.instruction.across true
  cost : second.cost = first.cost

instance (first second : Entry) : Decidable (first.Twins second) :=
  decidable_of_iff (second.instruction = first.instruction.across true ∧ second.cost = first.cost)
    ⟨fun ⟨instruction, cost⟩ => ⟨instruction, cost⟩, fun ⟨instruction, cost⟩ => ⟨instruction, cost⟩⟩

/-- An entry does to a machine what its twin does to the machine with the registers exchanged. -/
theorem Entry.Twins.perform_eq {first second : Entry} (htwins : first.Twins second)
    (machine : Machine) :
    machine.perform first = (machine.swapped.perform second).swapped := by
  have halike := (Likeness.swapping_swapped machine).perform htwins.instruction htwins.cost
    fun _ => Likeness.exact_swapping
  rw [halike.eq_swapped, Machine.swapped_swapped]

theorem Page.twins_indexedEntry :
    ∀ opcode : Byte, ∀ first ∈ Page.indexedEntry? .ix opcode,
      ∃ second ∈ Page.indexedEntry? .iy opcode, first.Twins second := by
  decide +kernel

theorem Page.across_bitInstruction (swapped : Bool) (opcode : Byte) (target : Operand)
    (copy : Option ByteRegister) :
    (Page.bitInstruction opcode target copy).across swapped =
      Page.bitInstruction opcode (target.across swapped) (copy.map (·.across swapped)) := by
  unfold Page.bitInstruction
  split <;> rfl

/-- No column of an opcode names an index register. -/
theorem Operand.across_source (swapped : Bool) (opcode : Byte) :
    (Operand.source opcode).register?.map (·.across swapped) =
      (Operand.source opcode).register? := by
  unfold Operand.source Operand.ofField
  split <;> rfl

theorem Page.twins_indexedBitsEntry (displacement opcode : Byte) :
    (Page.indexedBitsEntry .ix displacement opcode).Twins
      (Page.indexedBitsEntry .iy displacement opcode) where
  instruction := by
    simp only [Page.indexedBitsEntry, Page.across_bitInstruction, Operand.across_source]
    rfl
  cost := rfl

/-- The page of `IX` and that of `IY` have entries for the same opcodes, and what an entry of the
one does to a machine, the entry of the other does with the registers exchanged before and after. -/
structure TwinPages (page : Index → Page) : Prop where
  coverage : (page .ix).coverage = (page .iy).coverage
  performs : ∀ opcode displacement : Byte,
    ∀ first ∈ Code.entry? { page := page .ix, opcode, displacement },
      ∃ second ∈ Code.entry? { page := page .iy, opcode, displacement },
        ∀ machine : Machine, machine.perform first = (machine.swapped.perform second).swapped

/-- Both pages of the index registers are twins. -/
theorem twinPages : TwinPages .indexed ∧ TwinPages .indexedBits := by
  constructor
  · constructor
    · decide +kernel
    · intro opcode _ first hfirst
      obtain ⟨second, hsecond, htwins⟩ := Page.twins_indexedEntry opcode first hfirst
      exact ⟨second, hsecond, htwins.perform_eq⟩
  · constructor
    · decide +kernel
    · intro opcode displacement first hfirst
      obtain rfl : Page.indexedBitsEntry .ix displacement opcode = first := Option.some.inj hfirst
      exact ⟨_, rfl, (Page.twins_indexedBitsEntry displacement opcode).perform_eq⟩

end Z80
