import Z80.Proofs.Block.Repeat

/-!
# Transfers in rounds

A repeating block output and a repeating block input do the same to the registers in each step, and
count in `B` alike (`DeviceRound`). So after a number of rounds the registers are the same for both
(`CountsDown`), and so is how a run of either ends (`InRounds.ends`).
-/

namespace Z80.Machine

variable {start machine next : Machine} {direction : Direction} {count : Nat} {value : Byte}

/-- The device in `BC` after `B` has been counted down so many times. -/
def deviceAfter (start : Machine) (count : Nat) : Word :=
  joinBytes (start.registers.getByte .b - BitVec.ofNat 8 count) (start.registers.getByte .c)

/-- The rounds that the counter in `B` stands for: zero counts as 256. -/
def deviceRounds (start : Machine) : Nat :=
  rounds (start.registers.getByte .b)

/-! ## One round -/

/-- What a step of a repeating block transfer does besides moving its byte, whichever way that
goes: it counts, moves on in memory and sets the flags, and while there is more to do it leaves the
program counter on the instruction. -/
structure DeviceRound (machine : Machine) (direction : Direction) (value : Byte) (next : Machine) :
    Prop where
  executes : next.Executes
  registers : next.registers =
    { machine.registers with
      bc := withHigh machine.registers.bc (machine.registers.getByte .b - 1)
      hl := direction.step machine.registers.hl
      flags := next.registers.flags
      pc :=
        if machine.registers.getByte .b - 1 != 0 then machine.registers.pc
        else machine.registers.pc + 2
      r := next.registers.r }
  zero : next.registers.flags.zero = (machine.registers.getByte .b - 1 == 0)
  subtract : next.registers.flags.subtract = value.msb
  cost : next.cycles.current =
    if machine.registers.getByte .b - 1 != 0 then 21 else 16

/-- What a round costs, counted from the beginning of its step. -/
theorem current_spend_choose (cycles : Cycles) (more : Bool) :
    (cycles.begin.spend (BranchCost.block.choose more)).current = if more then 21 else 16 := by
  cases more <;> rfl

/-! ## All rounds -/

/-- What holds of the registers after a number of rounds. -/
structure CountsDown (start : Machine) (direction : Direction) (count : Nat) (machine : Machine) :
    Prop where
  executes : machine.Executes
  registers : machine.registers =
    { start.registers with
      bc := start.deviceAfter count
      hl := direction.advance start.registers.hl count
      flags := machine.registers.flags
      pc := machine.registers.pc
      r := machine.registers.r }

theorem countsDown_zero (hexecutes : start.Executes) : CountsDown start direction 0 start where
  executes := hexecutes
  registers := by
    have hdevice : start.deviceAfter 0 = start.registers.bc := by
      rw [deviceAfter, BitVec.sub_zero]
      exact joinBytes_highByte_lowByte _
    rw [Direction.advance_zero, hdevice]

namespace CountsDown

theorem counter (hstate : CountsDown start direction count machine) :
    machine.registers.getByte .b = start.registers.getByte .b - BitVec.ofNat 8 count := by
  rw [hstate.registers]
  exact highByte_joinBytes ..

theorem source (hstate : CountsDown start direction count machine) :
    machine.registers.hl = direction.advance start.registers.hl count := by
  rw [hstate.registers]

theorem device (hstate : CountsDown start direction count machine) :
    machine.registers.bc = start.deviceAfter count := by
  rw [hstate.registers]

/-- A round counts once more. -/
theorem device_round (hstate : CountsDown start direction count machine) :
    withHigh machine.registers.bc (machine.registers.getByte .b - 1) =
      start.deviceAfter (count + 1) := by
  rw [hstate.counter, hstate.device, withHigh, deviceAfter, deviceAfter, lowByte_joinBytes,
    BitVec.sub_sub, BitVec.ofNat_add]
  rfl

theorem round (hstate : CountsDown start direction count machine)
    (hround : machine.DeviceRound direction value next) :
    CountsDown start direction (count + 1) next where
  executes := hround.executes
  registers := by
    rw [hround.registers, hstate.device_round, hstate.source, Direction.step_advance,
      hstate.registers]

/-- There is more to do until the counter has run out. -/
theorem more_iff (hstate : CountsDown start direction count machine)
    (hcount : count < start.deviceRounds) :
    (machine.registers.getByte .b - 1 != 0) = true ↔ count + 1 ≠ start.deviceRounds := by
  rw [bne_iff_ne, hstate.counter, Ne, sub_one_eq_zero_iff hcount, deviceRounds]

/-- While there is more to do, a round leads back to the instruction. -/
theorem round_again (hstate : CountsDown start direction count machine)
    (hround : machine.DeviceRound direction value next) (hcount : count + 1 < start.deviceRounds) :
    next.registers.pc = machine.registers.pc ∧ next.cycles.current = 21 := by
  have hmore := (hstate.more_iff (by omega)).2 (by omega)
  rw [hround.registers, hround.cost, hmore]
  exact ⟨rfl, rfl⟩

/-- The last round leads behind the instruction. -/
theorem round_last (hstate : CountsDown start direction count machine)
    (hround : machine.DeviceRound direction value next) (hlast : count + 1 = start.deviceRounds) :
    next.registers.pc = machine.registers.pc + 2 ∧ next.cycles.current = 16 ∧
      next.registers.flags.zero = true := by
  have hmore : (machine.registers.getByte .b - 1 != 0) = false := by
    rw [Bool.eq_false_iff, Ne, hstate.more_iff (by omega)]
    exact fun h => h hlast
  refine ⟨?_, ?_, ?_⟩
  · rw [hround.registers, hmore]
    rfl
  · rw [hround.cost, hmore]
    rfl
  · rw [hround.zero, beq_iff_eq]
    exact bne_eq_false_iff_eq.1 hmore

end CountsDown

/-- A transfer in rounds that move the given bytes: while the machine stands on the instruction, a
round keeps what holds after so many rounds. -/
structure InRounds (start : Machine) (direction : Direction) (bytes : Nat → Byte)
    (Holds : Nat → Machine → Prop) : Prop where
  begins : Holds 0 start
  countsDown : ∀ {count machine}, Holds count machine → CountsDown start direction count machine
  round : ∀ {count machine}, Holds count machine → machine.registers.pc = start.registers.pc →
    count < start.deviceRounds →
      machine.DeviceRound direction (bytes count) machine.step ∧ Holds (count + 1) machine.step

/-- What a whole transfer leaves behind in the registers, and what each of its steps returns. -/
structure TransferEnds (start : Machine) (direction : Direction) (rounds : Nat) (last : Byte) :
    Prop where
  registers : (run rounds start).registers =
    { start.registers with
      bc := joinBytes 0 (start.registers.getByte .c)
      hl := direction.advance start.registers.hl rounds
      flags := (run rounds start).registers.flags
      pc := start.registers.pc + 2
      r := (run rounds start).registers.r }
  zero : (run rounds start).registers.flags.zero = true
  subtract : (run rounds start).registers.flags.subtract = last.msb
  last : (run rounds start).cycles.current = 16
  before : ∀ count, 0 < count → count < rounds →
    (run count start).registers.pc = start.registers.pc ∧ (run count start).cycles.current = 21

theorem exists_deviceRounds_eq_succ (start : Machine) : ∃ count, start.deviceRounds = count + 1 :=
  exists_rounds_eq_succ _

theorem deviceAfter_deviceRounds (start : Machine) :
    start.deviceAfter start.deviceRounds = joinBytes 0 (start.registers.getByte .c) := by
  rw [deviceAfter, deviceRounds, ofNat_rounds]
  exact congrArg (joinBytes · _) (BitVec.sub_self _)

namespace InRounds

variable {bytes : Nat → Byte} {Holds : Nat → Machine → Prop}

theorem repeating (htransfer : start.InRounds direction bytes Holds) :
    start.Repeating start.deviceRounds Holds where
  begins := htransfer.begins
  next hholds hpc hcount := (htransfer.round hholds hpc hcount).2
  again hholds hpc hcount :=
    (htransfer.countsDown hholds).round_again (htransfer.round hholds hpc (by omega)).1 hcount

/-- After the last round the transfer has ended. -/
theorem ends (htransfer : start.InRounds direction bytes Holds) :
    Holds start.deviceRounds (run start.deviceRounds start) ∧
      start.TransferEnds direction start.deviceRounds (bytes (start.deviceRounds - 1)) := by
  -- The last step is set apart, since only it leaves the instruction.
  obtain ⟨count, hrounds⟩ := start.exists_deviceRounds_eq_succ
  obtain ⟨hholds, hpc⟩ := htransfer.repeating.standing (by omega : count < _)
  obtain ⟨hround, hnext⟩ := htransfer.round hholds hpc (by omega)
  obtain ⟨hbehind, hcost, hzero⟩ :=
    (htransfer.countsDown hholds).round_last hround hrounds.symm
  have hlast : start.deviceRounds - 1 = count := by omega
  have hsubtract := hround.subtract
  rw [← run_succ, ← hrounds] at hnext hbehind hcost hzero hsubtract
  refine ⟨hnext, ?_⟩
  exact
    { registers := by
        rw [← hpc, ← hbehind, ← start.deviceAfter_deviceRounds]
        exact (htransfer.countsDown hnext).registers
      zero := hzero
      subtract := by rw [hsubtract, hlast]
      last := hcost
      before := fun _ => htransfer.repeating.before_last }

end InRounds

end Z80.Machine
