import Z80.Proofs.Step

/-!
# Steps of a repeating block instruction

A repeating block instruction is executed once in every step, and the step leaves the program
counter on it while there is more to do. `step_repeat` takes such a step apart, `Repeating` follows
a run of them, and `sub_one_eq_zero_iff` says when a counter of any width has run out.
-/

namespace Z80

/-- The opcode of the repeating form of a block instruction. -/
def repeatOpcode : BlockOp → Direction → Byte
  | .load, .up => 0xB0
  | .load, .down => 0xB8
  | .compare, .up => 0xB1
  | .compare, .down => 0xB9
  | .input, .up => 0xB2
  | .input, .down => 0xBA
  | .output, .up => 0xB3
  | .output, .down => 0xBB

theorem extendedEntry_repeatOpcode (op : BlockOp) (direction : Direction) :
    Page.extendedEntry? (repeatOpcode op direction) = some (Page.block op direction true) := by
  cases op <;> cases direction <;> rfl

/-- The address that a number of steps in a direction lead to. -/
def Direction.advance (direction : Direction) (address : Word) (count : Nat) : Word :=
  match direction with
  | .up => address + BitVec.ofNat 16 count
  | .down => address - BitVec.ofNat 16 count

@[simp] theorem Direction.advance_zero (direction : Direction) (address : Word) :
    direction.advance address 0 = address := by
  cases direction <;> simp [advance]

theorem Direction.step_advance (direction : Direction) (address : Word) (count : Nat) :
    direction.step (direction.advance address count) = direction.advance address (count + 1) := by
  cases direction with
  | up =>
      simp only [step, advance, BitVec.ofNat_add, BitVec.add_assoc]
      rfl
  | down =>
      simp only [step, advance, BitVec.ofNat_add, BitVec.sub_sub]
      rfl

/-! ## Counters -/

section Counters

variable {width : Nat} {counter : BitVec width} {count : Nat}

/-- The rounds that a counter stands for. A counter of zero wraps in the first round. -/
def rounds (counter : BitVec width) : Nat :=
  if counter = 0 then Nat.pow 2 width else counter.toNat

theorem rounds_le (counter : BitVec width) : rounds counter ≤ Nat.pow 2 width := by
  unfold rounds
  split
  · exact Nat.le_refl _
  · exact Nat.le_of_lt counter.isLt

theorem exists_rounds_eq_succ (counter : BitVec width) : ∃ count, rounds counter = count + 1 := by
  apply Nat.exists_eq_succ_of_ne_zero
  unfold rounds
  by_cases hzero : counter = 0
  · rw [if_pos hzero]
    exact Nat.ne_of_gt (Nat.two_pow_pos width)
  · rw [if_neg hzero]
    exact fun h => hzero (BitVec.eq_of_toNat_eq h)

@[simp] theorem ofNat_rounds (counter : BitVec width) :
    BitVec.ofNat width (rounds counter) = counter := by
  unfold rounds
  by_cases hzero : counter = 0
  · rw [if_pos hzero, hzero]
    exact BitVec.eq_of_toNat_eq ((BitVec.toNat_ofNat ..).trans (Nat.mod_self _))
  · rw [if_neg hzero, BitVec.ofNat_toNat, BitVec.setWidth_eq]

/-- Of the rounds, only the last has the number that the counter holds. -/
theorem ofNat_eq_counter_iff (hpositive : 0 < count) (hcount : count ≤ rounds counter) :
    BitVec.ofNat width count = counter ↔ count = rounds counter := by
  constructor
  · intro h
    have hmod : count % 2 ^ width = counter.toNat := by rw [← h, BitVec.toNat_ofNat]
    unfold rounds at hcount ⊢
    by_cases hzero : counter = 0
    · rw [if_pos hzero] at hcount ⊢
      rw [hzero] at hmod
      exact Nat.le_antisymm hcount (Nat.le_of_dvd hpositive (Nat.dvd_of_mod_eq_zero hmod))
    · rw [if_neg hzero] at hcount ⊢
      rw [← hmod, Nat.mod_eq_of_lt (Nat.lt_of_le_of_lt hcount counter.isLt)]
  · intro h
    rw [h, ofNat_rounds]

/-- The counter runs out in the last round. -/
theorem sub_one_eq_zero_iff (hcount : count < rounds counter) :
    counter - BitVec.ofNat width count - 1 = 0 ↔ count + 1 = rounds counter := by
  have hnext : BitVec.ofNat width count + 1 = BitVec.ofNat width (count + 1) :=
    (BitVec.ofNat_add count 1).symm
  have hzero (value : BitVec width) : 0 + value = value := BitVec.zero_add value
  calc counter - BitVec.ofNat width count - 1 = 0
    _ ↔ counter = BitVec.ofNat width (count + 1) := by
        rw [BitVec.sub_sub, hnext, BitVec.sub_eq_iff_eq_add, hzero]
    _ ↔ BitVec.ofNat width (count + 1) = counter := eq_comm
    _ ↔ count + 1 = rounds counter := ofNat_eq_counter_iff (Nat.succ_pos count) hcount

end Counters

/-- The rounds that a counter in `BC` stands for: zero counts as 65536. -/
def wordRounds (counter : Word) : Nat :=
  if counter = 0 then 0x10000 else counter.toNat

theorem wordRounds_eq (counter : Word) : wordRounds counter = rounds counter :=
  rfl

theorem exists_wordRounds_eq_succ (counter : Word) : ∃ count, wordRounds counter = count + 1 :=
  exists_rounds_eq_succ counter

@[simp] theorem sub_wordRounds (counter : Word) :
    counter - BitVec.ofNat 16 (wordRounds counter) = 0 := by
  rw [wordRounds_eq, ofNat_rounds]
  exact BitVec.sub_self counter

/-- The counter in `BC` runs out in the last round. -/
theorem counter_eq_zero_iff {counter : Word} {count : Nat} (hcount : count < wordRounds counter) :
    counter - BitVec.ofNat 16 count - 1 = 0 ↔ count + 1 = wordRounds counter :=
  sub_one_eq_zero_iff hcount

namespace Machine

variable {start machine : Machine} {op : BlockOp} {direction : Direction}

/-- What the log says about a step of a repeating block instruction. -/
def repeatTrace (machine : Machine) (op : BlockOp) (direction : Direction) : Trace where
  address := machine.registers.pc
  opcode := [0xED, repeatOpcode op direction]
  operands := ((machine.entered 2 2).blockRepeat op direction).operands.toList
  name := Page.blockName op direction true
  cost := .dynamic

/-- The program counter stands on the repeating form of a block instruction. -/
structure AtRepeat (machine : Machine) (op : BlockOp) (direction : Direction) : Prop where
  lead : machine.read machine.registers.pc = 0xED
  opcode : machine.read (machine.registers.pc + 1) = repeatOpcode op direction

/-- A step of a repeating block instruction is one round of it. -/
theorem step_repeat (hexecutes : machine.Executes) (hcode : machine.AtRepeat op direction) :
    machine.step =
      ((machine.entered 2 2).blockRepeat op direction).emit
        (.executed (machine.repeatTrace op direction)) := by
  have hentry : Page.extendedEntry? (machine.read (machine.registers.pc + 1)) =
      some (Page.block op direction true) := by
    rw [hcode.opcode, extendedEntry_repeatOpcode]
  rw [step_extended hexecutes hcode.lead hentry, hcode.opcode]
  rfl

/-- A round moves the program counter back while there is more to do, and costs accordingly. -/
theorem blockRepeat_eq (machine : Machine) (op : BlockOp) (direction : Direction) :
    machine.blockRepeat op direction =
      let (more, next) := machine.blockRound op direction
      { next with
        registers := { next.registers with
          pc := if more then next.registers.pc - 2 else next.registers.pc }
        cycles := next.cycles.spend (BranchCost.block.choose more) } := by
  unfold blockRepeat
  obtain ⟨_ | _, next⟩ := machine.blockRound op direction <;> rfl

/-- The instruction is where it was if the program counter is, and if its two bytes are. -/
theorem AtRepeat.kept (hcode : start.AtRepeat op direction)
    (hpc : machine.registers.pc = start.registers.pc)
    (hlead : machine.read start.registers.pc = start.read start.registers.pc)
    (hopcode : machine.read (start.registers.pc + 1) = start.read (start.registers.pc + 1)) :
    machine.AtRepeat op direction where
  lead := by rw [hpc, hlead, hcode.lead]
  opcode := by rw [hpc, hopcode, hcode.opcode]

/-- Where nothing is written, the instruction stays. -/
theorem AtRepeat.of_memory (hcode : start.AtRepeat op direction)
    (hpc : machine.registers.pc = start.registers.pc) (hmemory : machine.memory = start.memory) :
    machine.AtRepeat op direction := by
  apply hcode.kept hpc
  · rw [read, hmemory, read]
  · rw [read, hmemory, read]

/-! ## Runs -/

/-- An instruction that is executed a number of times: each time keeps what holds after so many, and
all but the last lead back to the instruction. -/
structure Repeating (start : Machine) (total : Nat) (Holds : Nat → Machine → Prop) : Prop where
  begins : Holds 0 start
  next : ∀ {count machine}, Holds count machine → machine.registers.pc = start.registers.pc →
    count < total → Holds (count + 1) machine.step
  again : ∀ {count machine}, Holds count machine → machine.registers.pc = start.registers.pc →
    count + 1 < total →
      machine.step.registers.pc = machine.registers.pc ∧ machine.step.cycles.current = 21

namespace Repeating

variable {total count : Nat} {Holds : Nat → Machine → Prop}

/-- A run that has not reached the last step stands on the instruction. -/
theorem standing (hrepeating : start.Repeating total Holds) (hcount : count < total) :
    Holds count (run count start) ∧ (run count start).registers.pc = start.registers.pc := by
  induction count with
  | zero => exact ⟨hrepeating.begins, rfl⟩
  | succ count ih =>
      obtain ⟨hholds, hpc⟩ := ih (by omega)
      have hagain := hrepeating.again hholds hpc hcount
      rw [run_succ]
      exact ⟨hrepeating.next hholds hpc (by omega), hagain.1.trans hpc⟩

/-- Every step before the last leads back to the instruction. -/
theorem before_last (hrepeating : start.Repeating total Holds) (hpositive : 0 < count)
    (hcount : count < total) :
    (run count start).registers.pc = start.registers.pc ∧
      (run count start).cycles.current = 21 := by
  obtain ⟨earlier, rfl⟩ := Nat.exists_eq_succ_of_ne_zero (by omega : count ≠ 0)
  obtain ⟨hholds, hpc⟩ := hrepeating.standing (by omega : earlier < total)
  obtain ⟨hsame, hcost⟩ := hrepeating.again hholds hpc hcount
  rw [run_succ]
  exact ⟨hsame.trans hpc, hcost⟩

end Repeating

end Machine

end Z80
