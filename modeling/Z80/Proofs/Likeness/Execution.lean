import Z80.Proofs.Likeness.Machines

/-!
# Instructions on machines that are alike

Two machines that are alike are so after they have executed the same instruction, the names of the
index registers exchanged in it if they are exchanged between the machines (`OfMachines.execute`).
Only an instruction that reads the flags as a byte needs flags that are the same.
-/

namespace Z80

/-- The registers whose words an instruction reads. -/
def Instruction.wordSources : Instruction → List WordRegister
  | .loadThrough pointer | .storeThrough pointer => [pointer]
  | .storeWordDirect source | .loadStackPointer source | .push source => [source]
  | .exchangeTop register | .incrementWord register | .decrementWord register => [register]
  | .jumpTo register => [register]
  | .arithmeticWord _ target source => [target, source]
  | _ => []

namespace Likeness.OfMachines

variable {likeness : Likeness} {left right : Machine}

/-! ## Block instructions -/

@[simp] theorem copiedByte_across (swapped : Bool) (place : Place) (value : Byte) :
    (place.across swapped).copiedByte value = place.copiedByte value := by
  cases place <;> rfl

theorem withFlags (halike : likeness.OfMachines left right) {first second : Flags}
    (hflags : second = first) :
    likeness.OfMachines { left with registers := { left.registers with flags := first } }
      { right with registers := { right.registers with flags := second } } := by
  rw [hflags]
  exact halike.withRegisters { halike.registers with flags := likeness.flags_refl first }

theorem blockLoad (halike : likeness.OfMachines left right) (direction : Direction) :
    likeness.OfResults (left.blockLoad direction) (right.blockLoad direction) := by
  have hwritten := halike.write left.registers.de (left.read left.registers.hl)
  have hmoved := hwritten.withRegisters
    ((hwritten.registers.stepSource direction).stepTarget direction).countWord
  have hbc := hmoved.registers.bc
  have ha := hmoved.registers.a
  have hflags (a value : Byte) (more : Bool) := likeness.flags_congr
    (blockLoadFlags · a value more) (fun _ => rfl) hmoved.registers.flags
  unfold Machine.blockLoad
  rw [halike.registers.hl, halike.registers.de, halike.read]
  refine ⟨congrArg (· != 0) hbc, hmoved.withFlags ?_⟩
  simp only [Machine.update]
  rw [hbc, ha, hflags]

theorem blockCompare (halike : likeness.OfMachines left right) (direction : Direction) :
    likeness.OfResults (left.blockCompare direction) (right.blockCompare direction) := by
  have hmoved := halike.withRegisters (halike.registers.stepSource direction).countWord
  have hbc := hmoved.registers.bc
  have ha := hmoved.registers.a
  have hflags (a value : Byte) (more : Bool) := likeness.flags_congr
    (blockCompareFlags · a value more) (fun _ => rfl) hmoved.registers.flags
  unfold Machine.blockCompare
  rw [halike.registers.hl, halike.read]
  refine ⟨?_, hmoved.withFlags ?_⟩
  · simp only [Machine.update]
    rw [hbc, ha]
  · simp only [Machine.update]
    rw [hbc, ha, hflags]

theorem blockInput (halike : likeness.OfMachines left right) (direction : Direction) :
    likeness.OfResults (left.blockInput direction) (right.blockInput direction) := by
  have hreceived := halike.receive left.registers.bc
  unfold Machine.blockInput
  rw [halike.registers.bc]
  generalize left.receive left.registers.bc = first at hreceived ⊢
  generalize right.receive left.registers.bc = second at hreceived ⊢
  obtain ⟨value, left⟩ := first
  obtain ⟨same, right⟩ := second
  obtain rfl : same = value := hreceived.result
  have halike : likeness.OfMachines left right := hreceived.machine
  have hwritten := halike.write left.registers.hl same
  have hmoved := hwritten.withRegisters (hwritten.registers.countByte.stepSource direction)
  have hcounter := hmoved.registers.getByte .b
  have hdevice := hmoved.registers.getByte .c
  simp only [Machine.update, halike.registers.hl]
  refine ⟨congrArg (· != 0) hcounter, hmoved.withFlags ?_⟩
  exact congr (congrArg (blockDeviceFlags · same) hcounter) (congrArg direction.step hdevice)

theorem blockOutput (halike : likeness.OfMachines left right) (direction : Direction) :
    likeness.OfResults (left.blockOutput direction) (right.blockOutput direction) := by
  have hcounted := halike.registers.countByte
  have hsent := (halike.withRegisters hcounted).send left.registers.countByte.bc
    (left.read left.registers.hl)
  have hmoved := hsent.withRegisters (hsent.registers.stepSource direction)
  have hcounter := hmoved.registers.getByte .b
  have hlow := hmoved.registers.getByte .l
  unfold Machine.blockOutput
  simp only [Machine.update, halike.registers.hl, halike.read, hcounted.bc]
  refine ⟨congrArg (· != 0) hcounter, hmoved.withFlags ?_⟩
  exact congr (congrArg (blockDeviceFlags · (left.read left.registers.hl)) hcounter) hlow

theorem blockRound (halike : likeness.OfMachines left right) (op : BlockOp)
    (direction : Direction) :
    likeness.OfResults (left.blockRound op direction) (right.blockRound op direction) := by
  cases op with
  | load => exact halike.blockLoad direction
  | compare => exact halike.blockCompare direction
  | input => exact halike.blockInput direction
  | output => exact halike.blockOutput direction

theorem blockRepeat (halike : likeness.OfMachines left right) (op : BlockOp)
    (direction : Direction) :
    likeness.OfMachines (left.blockRepeat op direction) (right.blockRepeat op direction) := by
  have hround := halike.blockRound op direction
  unfold Machine.blockRepeat
  simp only [hround.result, hround.machine.registers.pc]
  exact (ite _ (hround.machine.jump _) hround.machine).spendBranch _ _

/-! ## Every instruction -/

/-- Executing an instruction keeps machines alike. -/
theorem execute (halike : likeness.OfMachines left right) (instruction : Instruction)
    (hexact : .pair .af ∈ instruction.wordSources → likeness.Exact) :
    likeness.OfMachines (left.execute instruction)
      (right.execute (instruction.across likeness.swapped)) := by
  have hregisters := halike.registers
  have hbyte := halike.fetchOperand
  have hword := halike.fetchOperandWord
  have hsource {register : WordRegister} (hmember : register ∈ instruction.wordSources) :
      right.registers.getWord (register.across likeness.swapped) =
        left.registers.getWord register :=
    hregisters.getWord fun haf => hexact (haf ▸ hmember)
  cases instruction with
  | noOperation => exact halike
  | halt =>
      simp only [Machine.execute, Instruction.across, hregisters.pc]
      exact (halike.withHalted true).emit _
  | enableInterrupts => exact halike.withInterrupts halike.interrupts.enable
  | disableInterrupts => exact halike.withInterrupts halike.interrupts.disable
  | interruptMode mode => exact halike.withInterrupts (halike.interrupts.setMode mode)
  -- Loads and stores.
  | load target source =>
      obtain ⟨hfrom, hfirst⟩ := halike.locate source
      obtain ⟨hto, hsecond⟩ := hfirst.locate target
      simp only [Machine.execute, Instruction.across, hfrom, hto, hsecond.get]
      exact hsecond.put _ _
  | loadByte target =>
      obtain ⟨hto, hlocated⟩ := halike.locate target
      have hvalue := hlocated.fetchOperand
      simp only [Machine.execute, Instruction.across, hto, hvalue.result]
      exact hvalue.machine.put _ _
  | loadThrough pointer =>
      have hpointer := hsource (List.mem_singleton_self pointer)
      simp only [Machine.execute, Instruction.across, hpointer, halike.read]
      exact halike.put (.reg .a) _
  | storeThrough pointer =>
      have hpointer := hsource (List.mem_singleton_self pointer)
      simp only [Machine.execute, Instruction.across, hpointer, hregisters.a]
      exact halike.write _ _
  | loadDirect =>
      simp only [Machine.execute, Instruction.across, hword.result, hword.machine.read]
      exact hword.machine.put (.reg .a) _
  | storeDirect =>
      simp only [Machine.execute, Instruction.across, hword.result, hword.machine.registers.a]
      exact hword.machine.write _ _
  | loadSpecial source => exact halike.loadSpecial source
  | storeSpecial target => exact halike.storeSpecial target
  | loadWord target =>
      simp only [Machine.execute, Instruction.across, hword.result]
      exact hword.machine.withRegisters (hword.machine.registers.setWord target _)
  | loadWordDirect target =>
      simp only [Machine.execute, Instruction.across, hword.result, hword.machine.readWord]
      exact hword.machine.withRegisters (hword.machine.registers.setWord target _)
  | storeWordDirect source =>
      have hvalue : right.fetchOperandWord.2.registers.getWord (source.across likeness.swapped) =
          left.fetchOperandWord.2.registers.getWord source :=
        hword.machine.registers.getWord fun haf => hexact (haf ▸ List.mem_singleton_self source)
      simp only [Machine.execute, Instruction.across, hword.result, hvalue]
      exact hword.machine.writeWord _ _
  | loadStackPointer source =>
      have hvalue := hsource (List.mem_singleton_self source)
      exact halike.withRegisters { hregisters with sp := hvalue }
  | push source =>
      have hvalue := hsource (List.mem_singleton_self source)
      simp only [Machine.execute, Instruction.across, hvalue]
      exact halike.push _
  | pop target =>
      have hpopped := halike.pop
      simp only [Machine.execute, Instruction.across, hpopped.result]
      exact hpopped.machine.withRegisters (hpopped.machine.registers.setWord target _)
  | exchangeTop register =>
      have hvalue := hsource (List.mem_singleton_self register)
      have hwritten := halike.writeWord left.registers.sp (left.registers.getWord register)
      simp only [Machine.execute, Instruction.across, hregisters.sp, hvalue, halike.readWord]
      exact hwritten.withRegisters (hwritten.registers.setWord register _)
  -- Exchanges of registers.
  | exchangeAccumulator => exact halike.withRegisters (hregisters.exchange .af)
  | exchangeBank => exact halike.withRegisters hregisters.exchangeBank
  | exchangeData =>
      exact halike.withRegisters { hregisters with de := hregisters.hl, hl := hregisters.de }
  -- Arithmetic.
  | arithmetic op source =>
      obtain ⟨hfrom, hlocated⟩ := halike.locate source
      simp only [Machine.execute, Instruction.across, hfrom, hlocated.get]
      exact hlocated.withRegisters (hlocated.registers.arithmetic op _)
  | arithmeticByte op =>
      simp only [Machine.execute, Instruction.across, hbyte.result]
      exact hbyte.machine.withRegisters (hbyte.machine.registers.arithmetic op _)
  | accumulate op => exact halike.withRegisters (hregisters.accumulate op)
  | edit change target copy =>
      obtain ⟨hto, hlocated⟩ := halike.locate target
      have hedited := hlocated.edit change (left.locate target).1
      cases copy with
      | none =>
          simp only [Machine.execute, Instruction.across, hto]
          exact hedited.machine
      | some register =>
          simp only [Machine.execute, Instruction.across, Option.map_some, hto, hedited.result]
          exact hedited.machine.put (.reg register) _
  | testBit position source =>
      obtain ⟨hfrom, hlocated⟩ := halike.locate source
      simp only [Machine.execute, Instruction.across, hfrom, hlocated.get, copiedByte_across]
      exact hlocated.withRegisters (hlocated.registers.testBit position _ _)
  | rotateDigit rotation =>
      obtain ⟨hresult, hrotated⟩ := hregisters.rotateDigit rotation (left.read left.registers.hl)
      simp only [Machine.execute, Instruction.across, hregisters.hl, halike.read, hresult]
      exact (halike.withRegisters hrotated).write _ _
  | arithmeticWord op target source =>
      have htarget := hsource (List.mem_cons_self : target ∈ [target, source])
      have hother := hsource (List.mem_cons_of_mem target (List.mem_singleton_self source))
      obtain ⟨hresult, hcombined⟩ := hregisters.arithmeticWord op
        (left.registers.getWord target) (left.registers.getWord source)
      refine halike.withRegisters ?_
      simp only [htarget, hother, hresult]
      exact hcombined.setWord target _
  | incrementWord register =>
      have hvalue := hsource (List.mem_singleton_self register)
      refine halike.withRegisters ?_
      simp only [Registers.incrementWord, hvalue]
      exact hregisters.setWord register _
  | decrementWord register =>
      have hvalue := hsource (List.mem_singleton_self register)
      refine halike.withRegisters ?_
      simp only [Registers.decrementWord, hvalue]
      exact hregisters.setWord register _
  -- Control flow.
  | jump =>
      simp only [Machine.execute, Instruction.across, hword.result]
      exact hword.machine.jump _
  | jumpIf condition =>
      simp only [Machine.execute, Instruction.across, hword.result, hword.machine.holds]
      exact ite _ (hword.machine.jump _) hword.machine
  | jumpRelative =>
      simp only [Machine.execute, Instruction.across, hbyte.result]
      exact hbyte.machine.jumpRelative _
  | jumpRelativeIf condition =>
      simp only [Machine.execute, Instruction.across, halike.holds]
      exact halike.branch _ _
  | jumpCounted =>
      have hcounted := hregisters.countByte
      have hcounter : right.registers.countByte.getByte .b = left.registers.countByte.getByte .b :=
        hcounted.getByte .b
      simp only [Machine.execute, Instruction.across, Machine.update, hcounter]
      exact (halike.withRegisters hcounted).branch _ _
  | jumpTo register =>
      have hvalue := hsource (List.mem_singleton_self register)
      simp only [Machine.execute, Instruction.across, hvalue]
      exact halike.jump _
  | call =>
      simp only [Machine.execute, Instruction.across, hword.result]
      exact hword.machine.call _
  | callIf condition =>
      simp only [Machine.execute, Instruction.across, hword.result, hword.machine.holds]
      exact (ite _ (hword.machine.call _) hword.machine).spendBranch _ _
  | restart vector => exact halike.call vector
  | ret => exact halike.ret
  | retIf condition =>
      simp only [Machine.execute, Instruction.across, halike.holds]
      exact (ite _ halike.ret halike).spendBranch _ _
  | retNonMaskable => exact halike.ret.withInterrupts halike.ret.interrupts.restore
  | retMaskable => exact halike.ret.updateLines _
  -- Devices.
  | inputDirect =>
      have hdevice := halike.fetchDevice
      have hreceived := hdevice.machine.receive left.fetchDevice.1
      simp only [Machine.execute, Instruction.across, hdevice.result, hreceived.result]
      exact hreceived.machine.put (.reg .a) _
  | outputDirect =>
      have hdevice := halike.fetchDevice
      simp only [Machine.execute, Instruction.across, hdevice.result,
        hdevice.machine.registers.a]
      exact hdevice.machine.send _ _
  | input target =>
      have hreceived := halike.receiveFlagged
      cases target with
      | none => exact hreceived.machine
      | some register =>
          simp only [Machine.execute, Instruction.across, Option.map_some, hreceived.result]
          exact hreceived.machine.put (.reg register) _
  | output source =>
      cases source with
      | none =>
          simp only [Machine.execute, Instruction.across, Option.map_none, hregisters.bc]
          exact halike.send _ _
      | some register =>
          simp only [Machine.execute, Instruction.across, Option.map_some, hregisters.bc,
            hregisters.getByte]
          exact halike.send _ _
  | block op direction repeats =>
      cases repeats with
      | false => exact (halike.blockRound op direction).machine
      | true => exact halike.blockRepeat op direction

/-- Performing entries of the same cost, whose instructions have the names exchanged. -/
theorem perform (halike : likeness.OfMachines left right) {entry twin : Entry}
    (hinstruction : twin.instruction = entry.instruction.across likeness.swapped)
    (hcost : twin.cost = entry.cost)
    (hexact : .pair .af ∈ entry.instruction.wordSources → likeness.Exact) :
    likeness.OfMachines (left.perform entry) (right.perform twin) := by
  unfold Machine.perform
  rw [hinstruction, hcost]
  cases entry.cost with
  | fixed cycles => exact (halike.spend cycles).execute _ hexact
  | dynamic => exact halike.execute _ hexact

end Likeness.OfMachines

end Z80
