import Z80.Proofs.Block.Repeat

/-!
# The repeating block transfer

A repeating block transfer copies one byte in each step, from the memory that the steps before it
have left, until its counter has run out. `Memory.copied` is that memory, and `blockCopied` says
that a run of as many steps as the counter stands for copies them all, provided that no step but the
last writes over the instruction itself. The invariant is `CopyState`, and `Copying` adds that the
machine stands on the instruction.
-/

namespace Z80

/-- The memory after copying bytes one by one in a direction. A byte is read after all bytes before
it are written. -/
def Memory.copied (memory : Memory) (direction : Direction) (source target : Word) :
    Nat → Memory
  | 0 => memory
  | count + 1 =>
      (memory.copied direction source target count).write (direction.advance target count)
        ((memory.copied direction source target count).read (direction.advance source count))

namespace Machine

variable {start machine : Machine} {direction : Direction} {count : Nat}

/-! ## One step -/

theorem blockLoad_eq (machine : Machine) (direction : Direction) :
    machine.blockLoad direction =
      let value := machine.read machine.registers.hl
      let more := machine.registers.bc - 1 != 0
      (more,
        { machine with
          registers := { machine.registers with
            flags := blockLoadFlags machine.registers.flags machine.registers.a value more
            bc := machine.registers.bc - 1
            de := direction.step machine.registers.de
            hl := direction.step machine.registers.hl }
          memory := machine.memory.write machine.registers.de value
          log := machine.log.push (.memoryWrite machine.registers.de value) }) :=
  rfl

/-- A step of the repeating block transfer, in full. -/
theorem step_copy (hexecutes : machine.Executes) (hcode : machine.AtRepeat .load direction) :
    machine.step =
      let value := machine.read machine.registers.hl
      let more := machine.registers.bc - 1 != 0
      { machine with
        registers := { machine.registers with
          flags := blockLoadFlags machine.registers.flags machine.registers.a value more
          bc := machine.registers.bc - 1
          de := direction.step machine.registers.de
          hl := direction.step machine.registers.hl
          pc := if more then machine.registers.pc else machine.registers.pc + 2
          r := (machine.registers.refresh 2).r }
        cycles := machine.cycles.begin.spend (BranchCost.block.choose more)
        operands := {}
        memory := machine.memory.write machine.registers.de value
        log := (machine.log.push (.memoryWrite machine.registers.de value)).push
          (.executed (machine.repeatTrace .load direction)) } := by
  -- The program counter is behind both opcode bytes when the round moves it back.
  have hback : machine.registers.pc + 2 - 2 = machine.registers.pc := BitVec.add_sub_cancel ..
  rw [step_repeat hexecutes hcode, blockRepeat_eq, blockRound, blockLoad_eq]
  simp only [entered, hback]
  rfl

/-! ## All steps -/

/-- The invariant of the repeating block transfer: what holds after copying a number of bytes. -/
structure CopyState (start : Machine) (direction : Direction) (count : Nat) (machine : Machine) :
    Prop where
  executes : machine.Executes
  source : machine.registers.hl = direction.advance start.registers.hl count
  target : machine.registers.de = direction.advance start.registers.de count
  counter : machine.registers.bc = start.registers.bc - BitVec.ofNat 16 count
  memory : machine.memory =
    start.memory.copied direction start.registers.hl start.registers.de count
  accumulator : machine.registers.a = start.registers.a
  sign : machine.registers.flags.sign = start.registers.flags.sign
  zero : machine.registers.flags.zero = start.registers.flags.zero
  carry : machine.registers.flags.carry = start.registers.flags.carry

theorem copyState_zero (hexecutes : start.Executes) : CopyState start direction 0 start where
  executes := hexecutes
  source := (Direction.advance_zero ..).symm
  target := (Direction.advance_zero ..).symm
  counter := (BitVec.sub_zero _).symm
  memory := rfl
  accumulator := rfl
  sign := rfl
  zero := rfl
  carry := rfl

/-- A step keeps the invariant. -/
theorem CopyState.step (hstate : CopyState start direction count machine)
    (hcode : machine.AtRepeat .load direction) :
    CopyState start direction (count + 1) machine.step := by
  rw [step_copy hstate.executes hcode]
  exact
    { executes := ⟨hstate.executes.running, hstate.executes.noNonMaskable,
        hstate.executes.noMaskable⟩
      source := by rw [← Direction.step_advance, ← hstate.source]
      target := by rw [← Direction.step_advance, ← hstate.target]
      counter := by
        rw [BitVec.ofNat_add, ← BitVec.sub_sub, ← hstate.counter]
        rfl
      memory := by rw [Memory.copied, ← hstate.memory, ← hstate.source, ← hstate.target]; rfl
      accumulator := hstate.accumulator
      sign := hstate.sign
      zero := hstate.zero
      carry := hstate.carry }

/-- While there is more to do, a step leads back to the instruction. -/
theorem CopyState.step_again (hstate : CopyState start direction count machine)
    (hcode : machine.AtRepeat .load direction)
    (hcount : count + 1 < wordRounds start.registers.bc) :
    machine.step.registers.pc = machine.registers.pc ∧ machine.step.cycles.current = 21 := by
  have hmore : (machine.registers.bc - 1 != 0) = true := by
    rw [hstate.counter, bne_iff_ne, Ne, counter_eq_zero_iff (by omega)]
    omega
  rw [step_copy hstate.executes hcode]
  simp only [hmore]
  exact ⟨rfl, rfl⟩

/-- The last step leads behind the instruction. -/
theorem CopyState.step_last (hstate : CopyState start direction count machine)
    (hcode : machine.AtRepeat .load direction)
    (hcount : count + 1 = wordRounds start.registers.bc) :
    machine.step.registers.pc = machine.registers.pc + 2 ∧ machine.step.cycles.current = 16 ∧
      machine.step.registers.flags.halfCarry = false ∧
      machine.step.registers.flags.parity = false ∧
      machine.step.registers.flags.subtract = false := by
  have hmore : (machine.registers.bc - 1 != 0) = false := by
    rw [hstate.counter, bne_eq_false_iff_eq, counter_eq_zero_iff (by omega)]
    exact hcount
  rw [step_copy hstate.executes hcode]
  simp only [hmore]
  exact ⟨rfl, rfl, rfl, rfl, rfl⟩

/-- The copy leaves the two bytes of the instruction as they are until its last step. -/
def SparesCode (start : Machine) (direction : Direction) : Prop :=
  ∀ count, 0 < count → count < wordRounds start.registers.bc →
    let memory := start.memory.copied direction start.registers.hl start.registers.de count
    memory.read start.registers.pc = start.memory.read start.registers.pc ∧
      memory.read (start.registers.pc + 1) = start.memory.read (start.registers.pc + 1)

/-- What holds before the last step: the machine stands on the instruction again. -/
structure Copying (start : Machine) (direction : Direction) (count : Nat) (machine : Machine) :
    Prop extends CopyState start direction count machine where
  pc : machine.registers.pc = start.registers.pc
  code : machine.AtRepeat .load direction

/-- Wherever the program counter is back, so is the instruction. -/
theorem CopyState.copying (hstate : CopyState start direction count machine)
    (hpc : machine.registers.pc = start.registers.pc)
    (hcode : start.AtRepeat .load direction) (hspares : start.SparesCode direction)
    (hcount : count < wordRounds start.registers.bc) : Copying start direction count machine := by
  have hkept : machine.read start.registers.pc = start.read start.registers.pc ∧
      machine.read (start.registers.pc + 1) = start.read (start.registers.pc + 1) := by
    unfold read
    rw [hstate.memory]
    cases count with
    -- Before the first byte there is nothing that the copy could have written over.
    | zero => exact ⟨rfl, rfl⟩
    | succ count => exact hspares (count + 1) (by omega) hcount
  exact
    { toCopyState := hstate
      pc := hpc
      code := hcode.kept hpc hkept.1 hkept.2 }

theorem copy_repeating (hexecutes : start.Executes) (hcode : start.AtRepeat .load direction)
    (hspares : start.SparesCode direction) :
    start.Repeating (wordRounds start.registers.bc) (CopyState start direction) where
  begins := copyState_zero hexecutes
  next hstate hpc hcount := hstate.step (hstate.copying hpc hcode hspares hcount).code
  again hstate hpc hcount :=
    hstate.step_again (hstate.copying hpc hcode hspares (by omega)).code hcount

/-- A run that has not reached the last step stands on the instruction. -/
theorem copying_run (hexecutes : start.Executes) (hcode : start.AtRepeat .load direction)
    (hspares : start.SparesCode direction) (hcount : count < wordRounds start.registers.bc) :
    Copying start direction count (run count start) := by
  obtain ⟨hstate, hpc⟩ := (copy_repeating hexecutes hcode hspares).standing hcount
  exact hstate.copying hpc hcode hspares hcount

/-- The outcome of a whole block transfer: the machine that a run of as many steps as the counter
stands for ends in, and what each step before the last has returned. -/
structure BlockCopied (start : Machine) (direction : Direction) (rounds : Nat) : Prop where
  memory : (run rounds start).memory =
    start.memory.copied direction start.registers.hl start.registers.de rounds
  source : (run rounds start).registers.hl = direction.advance start.registers.hl rounds
  target : (run rounds start).registers.de = direction.advance start.registers.de rounds
  counter : (run rounds start).registers.bc = 0
  pc : (run rounds start).registers.pc = start.registers.pc + 2
  accumulator : (run rounds start).registers.a = start.registers.a
  sign : (run rounds start).registers.flags.sign = start.registers.flags.sign
  zero : (run rounds start).registers.flags.zero = start.registers.flags.zero
  carry : (run rounds start).registers.flags.carry = start.registers.flags.carry
  halfCarry : (run rounds start).registers.flags.halfCarry = false
  parity : (run rounds start).registers.flags.parity = false
  subtract : (run rounds start).registers.flags.subtract = false
  last : (run rounds start).cycles.current = 16
  before : ∀ count, 0 < count → count < rounds →
    (run count start).registers.pc = start.registers.pc ∧ (run count start).cycles.current = 21

/-- A repeating block transfer that spares its own code copies all its bytes. -/
theorem blockCopied (hexecutes : start.Executes) (hcode : start.AtRepeat .load direction)
    (hspares : start.SparesCode direction) :
    start.BlockCopied direction (wordRounds start.registers.bc) := by
  -- The last step is set apart, since only it leaves the instruction.
  obtain ⟨count, hrounds⟩ := exists_wordRounds_eq_succ start.registers.bc
  have hcopying := copying_run hexecutes hcode hspares (by omega : count < _)
  have hfinal := hcopying.step hcopying.code
  obtain ⟨hbehind, hcost, hhalfCarry, hparity, hsubtract⟩ :=
    hcopying.step_last hcopying.code hrounds.symm
  rw [← run_succ, ← hrounds] at hfinal hbehind hcost hhalfCarry hparity hsubtract
  exact
    { memory := hfinal.memory
      source := hfinal.source
      target := hfinal.target
      counter := by rw [hfinal.counter, sub_wordRounds]
      pc := by rw [hbehind, hcopying.pc]
      accumulator := hfinal.accumulator
      sign := hfinal.sign
      zero := hfinal.zero
      carry := hfinal.carry
      halfCarry := hhalfCarry
      parity := hparity
      subtract := hsubtract
      last := hcost
      before := fun _ => (copy_repeating hexecutes hcode hspares).before_last }

/-- A transfer to the address behind its source repeats one byte, here over the instruction itself,
which only the last step reaches. -/
theorem blockCopied_overlapping :
    let start : Machine :=
      { registers := { hl := 0x4000, de := 0x4001, bc := 4, pc := 0x4004 }
        memory := Memory.blank.load 0x4000 [0x55, 0, 0, 0, 0xED, 0xB0] }
    start.Executes ∧ start.AtRepeat .load .up ∧ start.SparesCode .up ∧
      start.BlockCopied .up 4 ∧
      (run 4 start).memory.slice 0x4000 6 = [0x55, 0x55, 0x55, 0x55, 0x55, 0xB0] := by
  intro start
  have hexecutes : start.Executes := ⟨rfl, rfl, .inl rfl⟩
  have hcode : start.AtRepeat .load .up := ⟨by decide +kernel, by decide +kernel⟩
  have hspares : start.SparesCode .up := by
    intro count hpositive hcount
    have hcount : count < 4 := hcount
    obtain rfl | rfl | rfl : count = 1 ∨ count = 2 ∨ count = 3 := by omega
    · decide +kernel
    · decide +kernel
    · decide +kernel
  have hcopied : start.BlockCopied .up 4 := blockCopied hexecutes hcode hspares
  have hmemory : (run 4 start).memory = start.memory.copied .up 0x4000 0x4001 4 := hcopied.memory
  refine ⟨hexecutes, hcode, hspares, hcopied, ?_⟩
  rw [hmemory]
  decide +kernel

end Machine

end Z80
