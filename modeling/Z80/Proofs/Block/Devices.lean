import Z80.Proofs.Block.Rounds

/-!
# The repeating block transfers to and from devices

A repeating block output sends one byte of memory in each step, and a repeating block input stores
one byte that it receives, until the counter in `B` has run out. An output counts before it drives
the device in `BC` and an input after it, so that the numbers of the devices differ by one count.
`blockExchanged` says which bytes went where. The invariants are `OutputState` and `InputState`.
-/

namespace Z80

/-! ## Devices and memory -/

/-- The devices after a number of reads. -/
def Devices.afterReads (devices : Devices) : Nat → Devices
  | 0 => devices
  | count + 1 => (devices.afterReads count).take.2

/-- The byte that a read yields after a number of others. -/
def Devices.supply (devices : Devices) (count : Nat) : Byte :=
  (devices.afterReads count).take.1

@[simp] theorem Devices.lines_take (devices : Devices) : devices.take.2.lines = devices.lines := by
  unfold take
  split <;> rfl

theorem Direction.advance_injective (direction : Direction) (address : Word) {first second : Nat}
    (hfirst : first < 0x10000) (hsecond : second < 0x10000)
    (h : direction.advance address first = direction.advance address second) : first = second := by
  cases direction with
  | up =>
      simp only [advance] at h
      bv_omega
  | down =>
      simp only [advance] at h
      bv_omega

namespace Memory

/-- The memory after storing values one by one in a direction. -/
def filled (memory : Memory) (direction : Direction) (target : Word) (values : Nat → Byte) :
    Nat → Memory
  | 0 => memory
  | count + 1 =>
      (memory.filled direction target values count).write (direction.advance target count)
        (values count)

variable (memory : Memory) (direction : Direction) (target : Word) (values : Nat → Byte)

/-- Up to the size of the address space no value is stored over another one. -/
theorem read_filled {index count : Nat} (hindex : index < count) (hcount : count ≤ 0x10000) :
    (memory.filled direction target values count).read (direction.advance target index) =
      values index := by
  induction count with
  | zero => omega
  | succ count ih =>
      rw [filled, read_write]
      by_cases hlast : index = count
      · rw [hlast, if_pos rfl]
      · have hother : direction.advance target count ≠ direction.advance target index := fun h =>
          hlast (direction.advance_injective target (by omega) (by omega) h.symm)
        rw [if_neg hother]
        exact ih (by omega) (by omega)

theorem read_filled_other {address : Word} {count : Nat}
    (hother : ∀ index < count, direction.advance target index ≠ address) :
    (memory.filled direction target values count).read address = memory.read address := by
  induction count with
  | zero => rfl
  | succ count ih =>
      rw [filled, read_write_other _ _ (hother count (by omega))]
      exact ih fun index hindex => hother index (by omega)

end Memory

namespace Machine

/-- The bytes sent to devices, oldest first, each with its device. -/
def sent (machine : Machine) : List (Word × Byte) :=
  machine.log.toList.filterMap Event.sent?

/-- The bytes received from devices, oldest first, each with its device. -/
def received (machine : Machine) : List (Word × Byte) :=
  machine.log.toList.filterMap Event.received?

variable {start machine : Machine} {direction : Direction} {count : Nat}

/-! ## One step -/

/-- Counting down sets `B` to what is left. -/
theorem getByte_b_countByte (registers : Registers) :
    registers.countByte.getByte .b = registers.getByte .b - 1 :=
  registers.getByte_setByte_same .b _

theorem getByte_c_countByte (registers : Registers) :
    registers.countByte.getByte .c = registers.getByte .c :=
  lowByte_joinBytes ..

theorem blockOutput_eq (machine : Machine) (direction : Direction) :
    machine.blockOutput direction =
      let value := machine.read machine.registers.hl
      let counter := machine.registers.getByte .b - 1
      let bc := withHigh machine.registers.bc counter
      let hl := direction.step machine.registers.hl
      (counter != 0,
        { machine with
          registers := { machine.registers with
            flags := blockDeviceFlags counter value (lowByte hl)
            bc
            hl }
          log := machine.log.push (.sent bc value) }) := by
  have hcounter := getByte_b_countByte machine.registers
  unfold blockOutput
  simp only [update, send, emit, Registers.stepSource, Registers.getByte] at hcounter ⊢
  rw [hcounter]
  rfl

/-- A step of the repeating block output, in full. -/
theorem step_output (hexecutes : machine.Executes) (hcode : machine.AtRepeat .output direction) :
    machine.step =
      let value := machine.read machine.registers.hl
      let counter := machine.registers.getByte .b - 1
      let bc := withHigh machine.registers.bc counter
      let hl := direction.step machine.registers.hl
      { machine with
        registers := { machine.registers with
          flags := blockDeviceFlags counter value (lowByte hl)
          bc
          hl
          pc := if counter != 0 then machine.registers.pc else machine.registers.pc + 2
          r := (machine.registers.refresh 2).r }
        cycles := machine.cycles.begin.spend (BranchCost.block.choose (counter != 0))
        operands := {}
        log := (machine.log.push (.sent bc value)).push
          (.executed (machine.repeatTrace .output direction)) } := by
  -- The program counter is behind both opcode bytes when the round moves it back.
  have hback : machine.registers.pc + 2 - 2 = machine.registers.pc := BitVec.add_sub_cancel ..
  rw [step_repeat hexecutes hcode, blockRepeat_eq, blockRound, blockOutput_eq]
  simp only [entered, hback]
  rfl

theorem blockInput_eq (machine : Machine) (direction : Direction) :
    machine.blockInput direction =
      let value := machine.devices.take.1
      let counter := machine.registers.getByte .b - 1
      (counter != 0,
        { machine with
          registers := { machine.registers with
            flags := blockDeviceFlags counter value (direction.step (machine.registers.getByte .c))
            bc := withHigh machine.registers.bc counter
            hl := direction.step machine.registers.hl }
          memory := machine.memory.write machine.registers.hl value
          devices := machine.devices.take.2
          log := (machine.log.push (.received machine.registers.bc value)).push
            (.memoryWrite machine.registers.hl value) }) := by
  have hcounter := getByte_b_countByte machine.registers
  have hdevice := getByte_c_countByte machine.registers
  unfold blockInput
  simp only [update, receive, write, emit, Registers.stepSource, Registers.getByte]
    at hcounter hdevice ⊢
  rw [hcounter, hdevice]
  rfl

/-- A step of the repeating block input, in full. -/
theorem step_input (hexecutes : machine.Executes) (hcode : machine.AtRepeat .input direction) :
    machine.step =
      let value := machine.devices.take.1
      let counter := machine.registers.getByte .b - 1
      { machine with
        registers := { machine.registers with
          flags := blockDeviceFlags counter value (direction.step (machine.registers.getByte .c))
          bc := withHigh machine.registers.bc counter
          hl := direction.step machine.registers.hl
          pc := if counter != 0 then machine.registers.pc else machine.registers.pc + 2
          r := (machine.registers.refresh 2).r }
        memory := machine.memory.write machine.registers.hl value
        devices := machine.devices.take.2
        cycles := machine.cycles.begin.spend (BranchCost.block.choose (counter != 0))
        operands := {}
        log := ((machine.log.push (.received machine.registers.bc value)).push
          (.memoryWrite machine.registers.hl value)).push
            (.executed (machine.repeatTrace .input direction)) } := by
  have hback : machine.registers.pc + 2 - 2 = machine.registers.pc := BitVec.add_sub_cancel ..
  rw [step_repeat hexecutes hcode, blockRepeat_eq, blockRound, blockInput_eq]
  simp only [entered, hback]
  rfl

theorem output_round (hexecutes : machine.Executes) (hcode : machine.AtRepeat .output direction) :
    machine.DeviceRound direction (machine.read machine.registers.hl) machine.step := by
  rw [step_output hexecutes hcode]
  exact
    { executes := ⟨hexecutes.running, hexecutes.noNonMaskable, hexecutes.noMaskable⟩
      registers := rfl
      zero := rfl
      subtract := rfl
      cost := current_spend_choose _ _ }

theorem input_round (hexecutes : machine.Executes) (hcode : machine.AtRepeat .input direction) :
    machine.DeviceRound direction machine.devices.take.1 machine.step := by
  have hnonMaskable := hexecutes.noNonMaskable
  have hmaskable := hexecutes.noMaskable
  rw [← machine.devices.lines_take] at hnonMaskable hmaskable
  rw [step_input hexecutes hcode]
  exact
    { executes := ⟨hexecutes.running, hnonMaskable, hmaskable⟩
      registers := rfl
      zero := rfl
      subtract := rfl
      cost := current_spend_choose _ _ }

/-! ## Output -/

/-- The bytes that an output sends in a number of rounds, each with its device. The counter is taken
down before the device is driven. -/
def outputs (start : Machine) (direction : Direction) (rounds : Nat) : List (Word × Byte) :=
  (List.range rounds).map fun count =>
    (start.deviceAfter (count + 1), start.read (direction.advance start.registers.hl count))

/-- The invariant of the repeating block output: what holds after sending a number of bytes. -/
structure OutputState (start : Machine) (direction : Direction) (count : Nat) (machine : Machine) :
    Prop extends CountsDown start direction count machine where
  memory : machine.memory = start.memory
  sent : machine.sent = start.sent ++ start.outputs direction count
  received : machine.received = start.received

theorem outputState_zero (hexecutes : start.Executes) : OutputState start direction 0 start where
  toCountsDown := countsDown_zero hexecutes
  memory := rfl
  sent := (List.append_nil _).symm
  received := rfl

theorem OutputState.read_source (hstate : OutputState start direction count machine) :
    machine.read machine.registers.hl =
      start.read (direction.advance start.registers.hl count) := by
  rw [read, hstate.memory, hstate.source]
  rfl

/-- A round keeps the invariant. -/
theorem OutputState.step (hstate : OutputState start direction count machine)
    (hcode : machine.AtRepeat .output direction) :
    OutputState start direction (count + 1) machine.step := by
  have hcounts := hstate.round (output_round hstate.executes hcode)
  have hsent : machine.step.sent = machine.sent ++
      [(start.deviceAfter (count + 1), machine.read machine.registers.hl)] := by
    rw [step_output hstate.executes hcode, ← hstate.device_round]
    simp [Machine.sent, Event.sent?]
  have hreceived : machine.step.received = machine.received := by
    rw [step_output hstate.executes hcode]
    simp [Machine.received, Event.received?]
  exact
    { toCountsDown := hcounts
      memory := by
        rw [step_output hstate.executes hcode]
        exact hstate.memory
      sent := by
        rw [hsent, hstate.sent, hstate.read_source, List.append_assoc, outputs, outputs,
          List.range_succ, List.map_append]
        rfl
      received := hreceived.trans hstate.received }

theorem output_inRounds (hexecutes : start.Executes) (hcode : start.AtRepeat .output direction) :
    start.InRounds direction (fun count => start.read (direction.advance start.registers.hl count))
      (OutputState start direction) where
  begins := outputState_zero hexecutes
  countsDown := OutputState.toCountsDown
  round := by
    intro count machine hstate hpc _
    have hround := output_round hstate.executes (hcode.of_memory hpc hstate.memory)
    rw [hstate.read_source] at hround
    exact ⟨hround, hstate.step (hcode.of_memory hpc hstate.memory)⟩

/-- The outcome of a whole block output. -/
structure BlockSent (start : Machine) (direction : Direction) (rounds : Nat) : Prop
    extends start.TransferEnds direction rounds
      (start.read (direction.advance start.registers.hl (rounds - 1))) where
  memory : (run rounds start).memory = start.memory
  sent : (run rounds start).sent = start.sent ++ start.outputs direction rounds
  received : (run rounds start).received = start.received

theorem blockSent (hexecutes : start.Executes) (hcode : start.AtRepeat .output direction) :
    start.BlockSent direction start.deviceRounds := by
  obtain ⟨hstate, hends⟩ := (output_inRounds hexecutes hcode).ends
  exact
    { toTransferEnds := hends
      memory := hstate.memory
      sent := hstate.sent
      received := hstate.received }

/-! ## Input -/

/-- The bytes that an input receives in a number of rounds, each with its device. The counter is
taken down after the device is driven. -/
def inputs (start : Machine) (rounds : Nat) : List (Word × Byte) :=
  (List.range rounds).map fun count => (start.deviceAfter count, start.devices.supply count)

/-- The memory after an input has stored what it receives in a number of rounds. -/
def stored (start : Machine) (direction : Direction) (rounds : Nat) : Memory :=
  start.memory.filled direction start.registers.hl start.devices.supply rounds

/-- The input leaves the two bytes of the instruction as they are until its last round. -/
def InputSparesCode (start : Machine) (direction : Direction) : Prop :=
  ∀ count, 0 < count → count < start.deviceRounds →
    let memory := start.stored direction count
    memory.read start.registers.pc = start.memory.read start.registers.pc ∧
      memory.read (start.registers.pc + 1) = start.memory.read (start.registers.pc + 1)

/-- The invariant of the repeating block input: what holds after receiving a number of bytes. -/
structure InputState (start : Machine) (direction : Direction) (count : Nat) (machine : Machine) :
    Prop extends CountsDown start direction count machine where
  devices : machine.devices = start.devices.afterReads count
  memory : machine.memory = start.stored direction count
  received : machine.received = start.received ++ start.inputs count
  sent : machine.sent = start.sent

theorem inputState_zero (hexecutes : start.Executes) : InputState start direction 0 start where
  toCountsDown := countsDown_zero hexecutes
  devices := rfl
  memory := rfl
  received := (List.append_nil _).symm
  sent := rfl

/-- Wherever the program counter is back, so is the instruction. -/
theorem InputState.code (hstate : InputState start direction count machine)
    (hpc : machine.registers.pc = start.registers.pc) (hcode : start.AtRepeat .input direction)
    (hspares : start.InputSparesCode direction) (hcount : count < start.deviceRounds) :
    machine.AtRepeat .input direction := by
  have hkept : machine.read start.registers.pc = start.read start.registers.pc ∧
      machine.read (start.registers.pc + 1) = start.read (start.registers.pc + 1) := by
    unfold read
    rw [hstate.memory]
    cases count with
    -- Before the first byte there is nothing that the input could have written over.
    | zero => exact ⟨rfl, rfl⟩
    | succ count => exact hspares (count + 1) (by omega) hcount
  exact hcode.kept hpc hkept.1 hkept.2

theorem InputState.take_fst (hstate : InputState start direction count machine) :
    machine.devices.take.1 = start.devices.supply count := by
  rw [hstate.devices]
  rfl

/-- A round keeps the invariant. -/
theorem InputState.step (hstate : InputState start direction count machine)
    (hcode : machine.AtRepeat .input direction) :
    InputState start direction (count + 1) machine.step := by
  have hcounts := hstate.round (input_round hstate.executes hcode)
  have hreceived : machine.step.received = machine.received ++
      [(start.deviceAfter count, machine.devices.take.1)] := by
    rw [step_input hstate.executes hcode, ← hstate.device]
    simp [Machine.received, Event.received?]
  have hsent : machine.step.sent = machine.sent := by
    rw [step_input hstate.executes hcode]
    simp [Machine.sent, Event.sent?]
  exact
    { toCountsDown := hcounts
      devices := by
        rw [step_input hstate.executes hcode, Devices.afterReads, ← hstate.devices]
      memory := by
        rw [step_input hstate.executes hcode, stored, Memory.filled, ← stored, ← hstate.memory,
          ← hstate.source, ← hstate.take_fst]
      received := by
        rw [hreceived, hstate.received, hstate.take_fst, List.append_assoc, inputs, inputs,
          List.range_succ, List.map_append]
        rfl
      sent := hsent.trans hstate.sent }

theorem input_inRounds (hexecutes : start.Executes) (hcode : start.AtRepeat .input direction)
    (hspares : start.InputSparesCode direction) :
    start.InRounds direction start.devices.supply (InputState start direction) where
  begins := inputState_zero hexecutes
  countsDown := InputState.toCountsDown
  round := by
    intro count machine hstate hpc hcount
    have hhere := hstate.code hpc hcode hspares hcount
    have hround := input_round hstate.executes hhere
    rw [hstate.take_fst] at hround
    exact ⟨hround, hstate.step hhere⟩

/-- The outcome of a whole block input. -/
structure BlockReceived (start : Machine) (direction : Direction) (rounds : Nat) : Prop
    extends start.TransferEnds direction rounds (start.devices.supply (rounds - 1)) where
  received : (run rounds start).received = start.received ++ start.inputs rounds
  stored : ∀ count < rounds,
    (run rounds start).read (direction.advance start.registers.hl count) =
      start.devices.supply count
  untouched : ∀ address, (∀ count < rounds,
    direction.advance start.registers.hl count ≠ address) →
      (run rounds start).read address = start.read address
  sent : (run rounds start).sent = start.sent

theorem deviceRounds_le (start : Machine) : start.deviceRounds ≤ 256 :=
  rounds_le _

theorem blockReceived (hexecutes : start.Executes) (hcode : start.AtRepeat .input direction)
    (hspares : start.InputSparesCode direction) :
    start.BlockReceived direction start.deviceRounds := by
  obtain ⟨hstate, hends⟩ := (input_inRounds hexecutes hcode hspares).ends
  have hsize : start.deviceRounds ≤ 0x10000 := Nat.le_trans start.deviceRounds_le (by decide)
  exact
    { toTransferEnds := hends
      received := hstate.received
      stored := by
        intro count hcount
        rw [read, hstate.memory]
        exact Memory.read_filled _ _ _ _ hcount hsize
      untouched := by
        intro address hother
        rw [read, hstate.memory]
        exact Memory.read_filled_other _ _ _ _ hother
      sent := hstate.sent }

/-! ## Both ways -/

/-- A repeating block output sends all its bytes, and a repeating block input that spares its own
code receives and stores all of its. -/
theorem blockExchanged (hexecutes : start.Executes) :
    (start.AtRepeat .output direction → start.BlockSent direction start.deviceRounds) ∧
      (start.AtRepeat .input direction → start.InputSparesCode direction →
        start.BlockReceived direction start.deviceRounds) :=
  ⟨blockSent hexecutes, blockReceived hexecutes⟩

/-- An output whose source runs through the end of memory, and an input whose last byte comes to
stand on the instruction itself. -/
theorem blockExchanged_at_the_edge :
    let sender : Machine :=
      { registers := { hl := 0xFFFF, bc := 0x0310, pc := 0x4000 }
        memory := (Memory.blank.load 0x4000 [0xED, 0xB3]).load 0xFFFF [0x11, 0x22, 0x83] }
    let receiver : Machine :=
      { registers := { hl := 0x4003, bc := 0x0220, pc := 0x4001 }
        memory := Memory.blank.load 0x4001 [0xED, 0xBA]
        devices := { queue := [0x44, 0x55] } }
    (sender.Executes ∧ sender.AtRepeat .output .up ∧ sender.BlockSent .up 3 ∧
        (run 3 sender).sent = [(0x0210, 0x11), (0x0110, 0x22), (0x0010, 0x83)]) ∧
      receiver.Executes ∧ receiver.AtRepeat .input .down ∧ receiver.InputSparesCode .down ∧
        receiver.BlockReceived .down 2 ∧
        (run 2 receiver).received = [(0x0220, 0x44), (0x0120, 0x55)] ∧
        (run 2 receiver).memory.slice 0x4001 3 = [0xED, 0x55, 0x44] := by
  intro sender receiver
  have hsends : sender.Executes := ⟨rfl, rfl, .inl rfl⟩
  have houtput : sender.AtRepeat .output .up := ⟨by decide +kernel, by decide +kernel⟩
  have hthree : sender.deviceRounds = 3 := by decide +kernel
  have hreceives : receiver.Executes := ⟨rfl, rfl, .inl rfl⟩
  have hinput : receiver.AtRepeat .input .down := ⟨by decide +kernel, by decide +kernel⟩
  have htwo : receiver.deviceRounds = 2 := by decide +kernel
  have hspares : receiver.InputSparesCode .down := by
    intro count hpositive hcount
    obtain rfl : count = 1 := by omega
    decide +kernel
  have hsent := (blockExchanged hsends).1 houtput
  rw [hthree] at hsent
  have hreceived := (blockExchanged hreceives).2 hinput hspares
  rw [htwo] at hreceived
  refine ⟨⟨hsends, houtput, hsent, ?_⟩, hreceives, hinput, hspares, hreceived, ?_, ?_⟩
  · rw [hsent.sent]
    decide +kernel
  · rw [hreceived.received]
    decide +kernel
  · decide +kernel

end Machine

end Z80
