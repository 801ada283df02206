import Z80.Proofs.Block.Repeat

/-!
# The repeating block search

A repeating block search compares the accumulator with one byte in each step and ends at the first
byte that is equal to it, or when its counter has run out. `Machine.searchRounds` is the number of
these steps, and `blockSearched` says what a run of as many leaves behind. A search writes nothing,
so that the instruction stays where it is, and the invariant is `SearchState`.
-/

namespace Z80

/-! ## Flags -/

theorem value_difference {width : Nat} (left right : BitVec width) :
    (difference left right false).value = left - right := by
  have hborrow : (BitVec.ofBool false).setWidth width = BitVec.ofNat width 0 := by
    cases width <;> rfl
  rw [difference, hborrow, BitVec.sub_zero]

/-- A search sets the zero flag exactly where it finds the accumulator's byte. -/
theorem zero_blockCompareFlags (flags : Flags) (a value : Byte) (more : Bool) :
    (blockCompareFlags flags a value more).zero = true ↔ value = a := by
  have hzero : (blockCompareFlags flags a value more).zero = (a - value == 0) := rfl
  rw [hzero, beq_iff_eq, BitVec.sub_eq_iff_eq_add]
  constructor
  · intro h
    rw [h]
    exact (BitVec.zero_add value).symm
  · intro h
    rw [h]
    exact (BitVec.zero_add a).symm

/-- The flags that tell how two bytes differ are those of a plain comparison. -/
theorem blockCompareFlags_compared (flags others : Flags) (a value : Byte) (more : Bool) :
    let comparison := (AluOp.compare.apply a value others).2
    (blockCompareFlags flags a value more).sign = comparison.sign ∧
      (blockCompareFlags flags a value more).zero = comparison.zero ∧
      (blockCompareFlags flags a value more).halfCarry = comparison.halfCarry ∧
      (blockCompareFlags flags a value more).subtract = comparison.subtract := by
  have hvalue := value_difference a value
  refine ⟨?_, ?_, ?_, rfl⟩
  · exact congrArg BitVec.msb hvalue.symm
  · exact congrArg (· == 0) hvalue.symm
  · exact congrArg (halfCarry a value) hvalue.symm

namespace Machine

variable {start machine : Machine} {direction : Direction} {count : Nat}

/-! ## How long a search takes -/

/-- The byte that a search examines after a number of others. -/
def searchedByte (start : Machine) (direction : Direction) (count : Nat) : Byte :=
  start.read (direction.advance start.registers.hl count)

/-- The rounds of a search: up to the first byte that is equal to the accumulator, and as many as
the counter stands for if there is none. -/
def searchRounds (start : Machine) (direction : Direction) : Nat :=
  let found := (List.range (wordRounds start.registers.bc)).find? fun count =>
    start.searchedByte direction count == start.registers.a
  found.elim (wordRounds start.registers.bc) (· + 1)

/-- A search ends at the first byte that it finds, or with its counter. -/
theorem searchRounds_cases (start : Machine) (direction : Direction) :
    ∃ last, start.searchRounds direction = last + 1 ∧
      last < wordRounds start.registers.bc ∧
      (∀ earlier < last, start.searchedByte direction earlier ≠ start.registers.a) ∧
      (start.searchedByte direction last = start.registers.a ∨
        last + 1 = wordRounds start.registers.bc) := by
  unfold searchRounds
  cases hfound : (List.range (wordRounds start.registers.bc)).find? fun count =>
      start.searchedByte direction count == start.registers.a with
  | none =>
      have hnone := List.find?_range_eq_none.1 hfound
      obtain ⟨last, hrounds⟩ := exists_wordRounds_eq_succ start.registers.bc
      refine ⟨last, hrounds, by omega, ?_, .inr hrounds.symm⟩
      intro earlier hearlier
      simpa using hnone earlier (by omega)
  | some last =>
      obtain ⟨hequal, hmember, hnone⟩ := List.find?_range_eq_some.1 hfound
      refine ⟨last, rfl, List.mem_range.1 hmember, ?_, .inl (by simpa using hequal)⟩
      intro earlier hearlier
      simpa using hnone earlier hearlier

/-! ## One step -/

theorem blockCompare_eq (machine : Machine) (direction : Direction) :
    machine.blockCompare direction =
      let value := machine.read machine.registers.hl
      let more := machine.registers.bc - 1 != 0
      (more && machine.registers.a != value,
        { machine with
          registers := { machine.registers with
            flags := blockCompareFlags machine.registers.flags machine.registers.a value more
            bc := machine.registers.bc - 1
            hl := direction.step machine.registers.hl } }) :=
  rfl

/-- A step of the repeating block search, in full. -/
theorem step_search (hexecutes : machine.Executes) (hcode : machine.AtRepeat .compare direction) :
    machine.step =
      let value := machine.read machine.registers.hl
      let more := machine.registers.bc - 1 != 0
      let again := more && machine.registers.a != value
      { machine with
        registers := { machine.registers with
          flags := blockCompareFlags machine.registers.flags machine.registers.a value more
          bc := machine.registers.bc - 1
          hl := direction.step machine.registers.hl
          pc := if again then machine.registers.pc else machine.registers.pc + 2
          r := (machine.registers.refresh 2).r }
        cycles := machine.cycles.begin.spend (BranchCost.block.choose again)
        operands := {}
        log := machine.log.push (.executed (machine.repeatTrace .compare direction)) } := by
  -- The program counter is behind both opcode bytes when the round moves it back.
  have hback : machine.registers.pc + 2 - 2 = machine.registers.pc := BitVec.add_sub_cancel ..
  rw [step_repeat hexecutes hcode, blockRepeat_eq, blockRound, blockCompare_eq]
  simp only [entered, hback]
  rfl

/-! ## All steps -/

/-- The invariant of the repeating block search: what holds after examining a number of bytes. -/
structure SearchState (start : Machine) (direction : Direction) (count : Nat) (machine : Machine) :
    Prop where
  executes : machine.Executes
  registers : machine.registers =
    { start.registers with
      hl := direction.advance start.registers.hl count
      bc := start.registers.bc - BitVec.ofNat 16 count
      flags := machine.registers.flags
      pc := machine.registers.pc
      r := machine.registers.r }
  memory : machine.memory = start.memory
  carry : machine.registers.flags.carry = start.registers.flags.carry

theorem searchState_zero (hexecutes : start.Executes) : SearchState start direction 0 start where
  executes := hexecutes
  registers := by rw [Direction.advance_zero, BitVec.sub_zero]
  memory := rfl
  carry := rfl

namespace SearchState

theorem source (hstate : SearchState start direction count machine) :
    machine.registers.hl = direction.advance start.registers.hl count := by
  rw [hstate.registers]

theorem counter (hstate : SearchState start direction count machine) :
    machine.registers.bc = start.registers.bc - BitVec.ofNat 16 count := by
  rw [hstate.registers]

theorem accumulator (hstate : SearchState start direction count machine) :
    machine.registers.a = start.registers.a := by
  rw [hstate.registers]

/-- The byte at the source is the next one that the search examines. -/
theorem read_source (hstate : SearchState start direction count machine) :
    machine.read machine.registers.hl = start.searchedByte direction count := by
  rw [hstate.source, read, hstate.memory]
  rfl

/-- A step keeps the invariant. -/
theorem step (hstate : SearchState start direction count machine)
    (hcode : machine.AtRepeat .compare direction) :
    SearchState start direction (count + 1) machine.step := by
  rw [step_search hstate.executes hcode]
  exact
    { executes := ⟨hstate.executes.running, hstate.executes.noNonMaskable,
        hstate.executes.noMaskable⟩
      registers := by
        rw [← Direction.step_advance, BitVec.ofNat_add, ← BitVec.sub_sub, hstate.registers]
        rfl
      memory := hstate.memory
      carry := hstate.carry }

/-- While the byte differs and the counter has not run out, a step leads back to the instruction. -/
theorem step_again (hstate : SearchState start direction count machine)
    (hcode : machine.AtRepeat .compare direction)
    (hdiffers : start.searchedByte direction count ≠ start.registers.a)
    (hcount : count + 1 < wordRounds start.registers.bc) :
    machine.step.registers.pc = machine.registers.pc ∧ machine.step.cycles.current = 21 := by
  have hmore : (machine.registers.bc - 1 != 0) = true := by
    rw [hstate.counter, bne_iff_ne, Ne, counter_eq_zero_iff (by omega)]
    omega
  have hagain : (machine.registers.a != machine.read machine.registers.hl) = true := by
    rw [hstate.read_source, hstate.accumulator, bne_iff_ne]
    exact hdiffers.symm
  rw [step_search hstate.executes hcode]
  simp only [hmore, hagain]
  exact ⟨rfl, rfl⟩

/-- The last step leads behind the instruction. -/
theorem step_last (hstate : SearchState start direction count machine)
    (hcode : machine.AtRepeat .compare direction)
    (hcount : count < wordRounds start.registers.bc)
    (hlast : start.searchedByte direction count = start.registers.a ∨
      count + 1 = wordRounds start.registers.bc) :
    machine.step.registers.pc = machine.registers.pc + 2 ∧ machine.step.cycles.current = 16 := by
  have hends : (machine.registers.bc - 1 != 0 &&
      machine.registers.a != machine.read machine.registers.hl) = false := by
    rw [hstate.counter, hstate.read_source, hstate.accumulator]
    rcases hlast with hfound | hrunOut
    · simp [hfound]
    · rw [(counter_eq_zero_iff hcount).2 hrunOut]
      rfl
  rw [step_search hstate.executes hcode]
  simp only [hends]
  exact ⟨rfl, rfl⟩

/-- A step sets the flags from the byte that it examines and from what is left to count. -/
theorem flags_step (hstate : SearchState start direction count machine)
    (hcode : machine.AtRepeat .compare direction) :
    machine.step.registers.flags =
      blockCompareFlags machine.registers.flags start.registers.a
        (start.searchedByte direction count) (machine.step.registers.bc != 0) := by
  rw [step_search hstate.executes hcode, ← hstate.read_source, ← hstate.accumulator]

end SearchState

/-- The steps of a search before which the byte has not been found. -/
theorem search_repeating {last : Nat} (hexecutes : start.Executes)
    (hcode : start.AtRepeat .compare direction)
    (hdiffers : ∀ earlier < last,
      start.searchedByte direction earlier ≠ start.registers.a)
    (hlast : last < wordRounds start.registers.bc) :
    start.Repeating (last + 1) (SearchState start direction) where
  begins := searchState_zero hexecutes
  next hstate hpc _ := hstate.step (hcode.of_memory hpc hstate.memory)
  again hstate hpc hcount :=
    hstate.step_again (hcode.of_memory hpc hstate.memory) (hdiffers _ (by omega)) (by omega)

/-- The outcome of a whole block search that ends after a number of rounds: the machine that the run
ends in, and what each step before the last has returned. -/
structure BlockSearched (start : Machine) (direction : Direction) (rounds : Nat) : Prop where
  /-- Besides the flags, what the search counts and `R`, the registers stay as they were. -/
  registers : (run rounds start).registers =
    { start.registers with
      hl := direction.advance start.registers.hl rounds
      bc := start.registers.bc - BitVec.ofNat 16 rounds
      pc := start.registers.pc + 2
      flags := (run rounds start).registers.flags
      r := (run rounds start).registers.r }
  memory : (run rounds start).memory = start.memory
  carry : (run rounds start).registers.flags.carry = start.registers.flags.carry
  zero : (run rounds start).registers.flags.zero = true ↔
    start.searchedByte direction (rounds - 1) = start.registers.a
  parity : (run rounds start).registers.flags.parity = true ↔ (run rounds start).registers.bc ≠ 0
  /-- The flags that tell how the bytes differ are those of a plain comparison. -/
  compared : ∀ flags,
    let comparison := (AluOp.compare.apply start.registers.a
      (start.searchedByte direction (rounds - 1)) flags).2
    (run rounds start).registers.flags.sign = comparison.sign ∧
      (run rounds start).registers.flags.zero = comparison.zero ∧
      (run rounds start).registers.flags.halfCarry = comparison.halfCarry ∧
      (run rounds start).registers.flags.subtract = comparison.subtract
  last : (run rounds start).cycles.current = 16
  before : ∀ count, 0 < count → count < rounds →
    (run count start).registers.pc = start.registers.pc ∧ (run count start).cycles.current = 21

/-- A repeating block search examines the bytes up to the one that it is after. -/
theorem blockSearched (hexecutes : start.Executes) (hcode : start.AtRepeat .compare direction) :
    start.BlockSearched direction (start.searchRounds direction) := by
  obtain ⟨last, hrounds, hcount, hdiffers, hends⟩ := start.searchRounds_cases direction
  have hrepeating := search_repeating hexecutes hcode hdiffers hcount
  obtain ⟨hstate, hpc⟩ := hrepeating.standing (Nat.lt_succ_self last)
  have hthere := hcode.of_memory hpc hstate.memory
  have hfinal := hstate.step hthere
  have hflags := hstate.flags_step hthere
  obtain ⟨hbehind, hcost⟩ := hstate.step_last hthere hcount hends
  rw [← run_succ, ← hrounds] at hfinal hflags hbehind hcost
  have hexamined : start.searchRounds direction - 1 = last := by omega
  exact
    { registers := by rw [← hpc, ← hbehind]; exact hfinal.registers
      memory := hfinal.memory
      carry := hfinal.carry
      zero := by rw [hflags, zero_blockCompareFlags, hexamined]
      parity := by rw [hflags]; exact bne_iff_ne
      compared := by
        intro flags
        rw [hflags, hexamined]
        exact blockCompareFlags_compared ..
      last := hcost
      before := by
        intro count hpositive hbefore
        exact hrepeating.before_last hpositive (by omega) }

/-- A search across the end of the address space that finds its byte just as its counter runs out:
it reports both. -/
theorem blockSearched_in_last_round :
    let start : Machine :=
      { registers := { a := 0x42, bc := 4, hl := 0xFFFE, pc := 0x4000 }
        memory := (Memory.blank.load 0xFFFE [1, 2, 3, 0x42, 0x42]).load 0x4000 [0xED, 0xB1] }
    start.Executes ∧ start.AtRepeat .compare .up ∧ start.searchRounds .up = 4 ∧
      start.BlockSearched .up 4 ∧ (run 4 start).registers.hl = 2 ∧
      (run 4 start).registers.flags.zero = true ∧
      (run 4 start).registers.flags.parity = false := by
  intro start
  have hexecutes : start.Executes := ⟨rfl, rfl, .inl rfl⟩
  have hcode : start.AtRepeat .compare .up := ⟨by decide +kernel, by decide +kernel⟩
  have hrounds : start.searchRounds .up = 4 := by decide +kernel
  have hsearched : start.BlockSearched .up (start.searchRounds .up) :=
    blockSearched hexecutes hcode
  rw [hrounds] at hsearched
  refine ⟨hexecutes, hcode, hrounds, hsearched, ?_, ?_, ?_⟩
  · rw [hsearched.registers]
    decide +kernel
  · rw [hsearched.zero]
    decide +kernel
  · have hrunOut : (run 4 start).registers.bc = 0 := by
      rw [hsearched.registers]
      decide +kernel
    exact Bool.eq_false_iff.2 fun hparity => hsearched.parity.1 hparity hrunOut

end Machine

end Z80
