import Z80.Proofs.Tracing.Reading
import Z80.Code

/-!
# What executing an instruction reads and spends

An instruction reads as many operand bytes as `Instruction.operandCount` says. It spends nothing
of its own, unless it chooses between two costs as it executes (`Machine.execute_settles`); and
those instructions are the ones whose entries have no fixed cost (`Code.declaresCost`). So an entry
spends its cost once (`Machine.perform_performs`).
-/

namespace Z80

/-- The two costs between which an instruction chooses as it executes, if it does. -/
def Instruction.branchCost? : Instruction → Option BranchCost
  | .jumpRelativeIf _ => some .relativeJump
  | .jumpCounted => some .countedJump
  | .callIf _ => some .call
  | .retIf _ => some .ret
  | .block _ _ true => some .block
  | _ => none

namespace Machine

/-- How an instruction comes to its end: it has read its operands, and then it has spent the cost of
the way that it took, if it chooses between two. -/
inductive Settles (start : Machine) (instruction : Instruction) : Machine → Prop
  | plainly {settled : Machine} (hcost : instruction.branchCost? = none)
      (hread : start.HasRead instruction.operandCount settled) : Settles start instruction settled
  | choosing {settled : Machine} {cost : BranchCost} (taken : Bool)
      (hcost : instruction.branchCost? = some cost)
      (hread : start.HasRead instruction.operandCount settled) :
      Settles start instruction (settled.spendBranch cost taken)

variable {machine : Machine}

theorem branch_settles {start : Machine} {instruction : Instruction} {cost : BranchCost}
    (hcost : instruction.branchCost? = some cost) (hcount : instruction.operandCount = 1)
    (hreading : start.Reading 0 machine) (taken : Bool) :
    start.Settles instruction (machine.branch cost taken) := by
  have hread := hreading.fetchOperand.toHasRead
  rw [Nat.zero_add, ← hcount] at hread
  exact .choosing taken hcost (.ite taken (hread.elsewhere rfl rfl rfl) hread)

/-- Every instruction reads exactly its operands and spends exactly the cost that it chose. -/
theorem execute_settles (machine : Machine) (instruction : Instruction) :
    machine.Settles instruction (machine.execute instruction) := by
  have hstart := Reading.refl machine
  have hread := hstart.toHasRead
  have hword := hstart.fetchOperandWord.toHasRead
  have hbyte := hstart.fetchOperand.toHasRead
  cases instruction with
  -- Instructions without operands that change registers and flip-flops alone.
  | noOperation | enableInterrupts | disableInterrupts | interruptMode | loadThrough | loadSpecial
  | storeSpecial | loadStackPointer | exchangeAccumulator | exchangeBank | exchangeData
  | accumulate | arithmeticWord | incrementWord | decrementWord | jumpTo =>
      exact .plainly rfl (hread.elsewhere rfl rfl rfl)
  | halt =>
      exact .plainly rfl ⟨hread.operands, hread.cycles, hread.log.push _⟩
  -- Instructions with an operand that may be displaced.
  | load target source =>
      have hlocated := ((hstart.locate source).locate target).toHasRead
      rw [Nat.zero_add, Nat.add_comm] at hlocated
      exact .plainly rfl (hlocated.put _ _)
  | loadByte target =>
      have hlocated := (hstart.locate target).fetchOperand.toHasRead
      rw [Nat.zero_add] at hlocated
      exact .plainly rfl (hlocated.put _ _)
  | arithmetic op source | testBit position source =>
      have hlocated := (hstart.locate source).toHasRead
      rw [Nat.zero_add] at hlocated
      exact .plainly rfl (hlocated.elsewhere rfl rfl rfl)
  | edit edit target copy =>
      have hlocated := (hstart.locate target).toHasRead
      rw [Nat.zero_add] at hlocated
      have hedited := hlocated.edit edit (machine.locate target).1
      cases copy with
      | none => exact .plainly rfl hedited
      | some register => exact .plainly rfl (hedited.elsewhere rfl rfl rfl)
  -- Loads and stores.
  | storeThrough => exact .plainly rfl (hread.write _ _)
  | loadDirect | loadWord | loadWordDirect | jump =>
      exact .plainly rfl (hword.elsewhere rfl rfl rfl)
  | storeDirect => exact .plainly rfl (hword.write _ _)
  | storeWordDirect => exact .plainly rfl (hword.writeWord _ _)
  | rotateDigit rotation =>
      exact .plainly rfl ⟨hread.operands, hread.cycles, hread.log.push _⟩
  | arithmeticByte | jumpRelative => exact .plainly rfl (hbyte.elsewhere rfl rfl rfl)
  | push => exact .plainly rfl (hread.push _)
  | pop target => exact .plainly rfl (hread.pop.update (·.setWord target machine.pop.1))
  | exchangeTop register =>
      have hwritten := hread.writeWord machine.registers.sp (machine.registers.getWord register)
      exact .plainly rfl
        (hwritten.update (·.setWord register (machine.readWord machine.registers.sp)))
  -- Control flow.
  | jumpIf => exact .plainly rfl (.ite _ (hword.jump _) hword)
  | jumpRelativeIf => exact branch_settles rfl rfl hstart _
  | jumpCounted => exact branch_settles rfl rfl (hstart.update rfl) _
  | call => exact .plainly rfl (hword.call _)
  | callIf => exact .choosing _ rfl (.ite _ (hword.call _) hword)
  | restart => exact .plainly rfl (hread.call _)
  | ret => exact .plainly rfl hread.ret
  | retIf => exact .choosing _ rfl (.ite _ hread.ret hread)
  | retNonMaskable => exact .plainly rfl (hread.ret.updateInterrupts Interrupts.restore)
  | retMaskable => exact .plainly rfl (hread.ret.updateLines Lines.lowerMaskable)
  -- Devices.
  | inputDirect => exact .plainly rfl ((hbyte.receive _).elsewhere rfl rfl rfl)
  | outputDirect => exact .plainly rfl (hbyte.send _ _)
  | input target =>
      cases target with
      | none => exact .plainly rfl hread.receiveFlagged
      | some register => exact .plainly rfl (hread.receiveFlagged.elsewhere rfl rfl rfl)
  | output source =>
      cases source with
      | none => exact .plainly rfl (hread.send _ _)
      | some register => exact .plainly rfl (hread.send _ _)
  | block op direction repeats =>
      have hround := hread.blockRound op direction
      cases repeats with
      | false => exact .plainly rfl hround
      | true => exact .choosing _ rfl (.ite _ (hround.jump _) hround)

end Machine

/-! ## Entries -/

namespace Entry

/-- An entry leaves its cost open exactly if its instruction chooses one. -/
def DeclaresCost (entry : Entry) : Prop :=
  entry.cost = .dynamic ↔ entry.instruction.branchCost?.isSome

instance (entry : Entry) : Decidable entry.DeclaresCost :=
  inferInstanceAs (Decidable (_ ↔ _))

/-- The cycles that an entry may spend. -/
inductive Spends (entry : Entry) : BitVec 32 → Prop
  | fixed {cycles : BitVec 32} (hcost : entry.cost = .fixed cycles) : Spends entry cycles
  | chosen {cost : BranchCost} (taken : Bool) (hcost : entry.cost = .dynamic)
      (hchosen : entry.instruction.branchCost? = some cost) : Spends entry (cost.choose taken)

end Entry

theorem Page.declaresCost_unprefixedEntry :
    ∀ opcode : Byte, ∀ entry ∈ Page.unprefixedEntry? opcode, entry.DeclaresCost := by
  decide +kernel

theorem Page.declaresCost_extendedEntry :
    ∀ opcode : Byte, ∀ entry ∈ Page.extendedEntry? opcode, entry.DeclaresCost := by
  decide +kernel

theorem Page.declaresCost_indexedEntry (index : Index) :
    ∀ opcode : Byte, ∀ entry ∈ Page.indexedEntry? index opcode, entry.DeclaresCost := by
  cases index <;> decide +kernel

theorem Page.branchCost_bitInstruction (opcode : Byte) (target : Operand)
    (copy : Option ByteRegister) : (Page.bitInstruction opcode target copy).branchCost? = none := by
  unfold Page.bitInstruction
  split <;> rfl

theorem Page.bitMemoryCost_ne (opcode : Byte) (test edit : BitVec 32) :
    Page.bitMemoryCost opcode test edit ≠ .dynamic := by
  unfold Page.bitMemoryCost
  split <;> exact nofun

theorem Page.declaresCost_bitsEntry (opcode : Byte) : (Page.bitsEntry opcode).DeclaresCost := by
  have hfixed : (Page.bitsEntry opcode).cost ≠ .dynamic := by
    simp only [Page.bitsEntry]
    split
    · exact nofun
    · exact Page.bitMemoryCost_ne _ _ _
  refine iff_of_false hfixed ?_
  simp [Page.bitsEntry, Page.branchCost_bitInstruction]

theorem Page.declaresCost_indexedBitsEntry (index : Index) (displacement opcode : Byte) :
    (Page.indexedBitsEntry index displacement opcode).DeclaresCost := by
  refine iff_of_false (Page.bitMemoryCost_ne _ _ _) ?_
  simp [Page.indexedBitsEntry, Page.branchCost_bitInstruction]

/-- The whole instruction set declares its costs. -/
theorem Code.declaresCost {code : Code} {entry : Entry} (hentry : code.entry? = some entry) :
    entry.DeclaresCost :=
  Code.forall_entry Entry.DeclaresCost Page.declaresCost_unprefixedEntry
    Page.declaresCost_bitsEntry Page.declaresCost_extendedEntry Page.declaresCost_indexedEntry
    Page.declaresCost_indexedBitsEntry hentry

namespace Machine

/-- What performing an entry comes to: its operands are read, and its cost is spent once. -/
structure Performs (start : Machine) (entry : Entry) (finish : Machine) : Prop where
  operands : finish.operands = start.operands.recordAll
    (start.memory.slice start.registers.pc entry.instruction.operandCount)
  cycles : ∃ spent, entry.Spends spent ∧ finish.cycles = start.cycles.spend spent
  log : ExtendsBy start.log finish.log []

/-- Every entry of the instruction set performs so. -/
theorem perform_performs (machine : Machine) {code : Code} {entry : Entry}
    (hentry : code.entry? = some entry) : machine.Performs entry (machine.perform entry) := by
  have hdeclares := Code.declaresCost hentry
  cases hcost : entry.cost with
  | fixed cycles =>
      simp only [perform, hcost]
      have hsettles := execute_settles (machine.spend cycles) entry.instruction
      generalize (machine.spend cycles).execute entry.instruction = finish at hsettles ⊢
      cases hsettles with
      | plainly _ hread =>
          exact ⟨hread.operands, ⟨cycles, .fixed hcost, hread.cycles⟩, hread.log⟩
      | choosing taken hchosen _ =>
          have hdynamic := hdeclares.2 (Option.isSome_of_eq_some hchosen)
          simp [hcost] at hdynamic
  | dynamic =>
      simp only [perform, hcost]
      have hsettles := execute_settles machine entry.instruction
      generalize machine.execute entry.instruction = finish at hsettles ⊢
      cases hsettles with
      | plainly hnone _ =>
          have hsome := hdeclares.1 hcost
          simp [hnone] at hsome
      | choosing taken hchosen hread =>
          refine ⟨hread.operands, ⟨_, .chosen taken hcost hchosen, ?_⟩, hread.log⟩
          exact congrArg (Cycles.spend · _) hread.cycles

end Machine

end Z80
