import Z80.Proofs.Frame.Stores
import Z80.Proofs.Tracing.Step

/-!
# What a step accesses

A step that serves a request pushes the program counter, one that executes an instruction makes the
accesses of that instruction, and every other step makes none (`Machine.StepAccesses`). These are
all of its accesses (`Machine.stepFrame`): at most two writes, between which the rest of memory
stays as it is, and at most one byte exchanged with a device, by an instruction that is made for it.
The opcode alone tells where a step writes (`Machine.StepWrites`).
-/

namespace Z80

/-- The bytes received among some events, each with its device. -/
def receivedBytes (events : List Event) : List (Word × Byte) :=
  events.filterMap Event.received?

/-- The bytes sent among some events, each with its device. -/
def sentBytes (events : List Event) : List (Word × Byte) :=
  events.filterMap Event.sent?

/-! ## Input and output instructions -/

namespace Instruction

/-- The instruction receives a byte from a device. -/
def receives : Instruction → Bool
  | .inputDirect | .input _ | .block .input _ _ => true
  | _ => false

/-- The instruction sends a byte to a device. -/
def sends : Instruction → Bool
  | .outputDirect | .output _ | .block .output _ _ => true
  | _ => false

end Instruction

/-- The opcodes of the page of extensions that receive a byte: `IN` and `INI` with its kin. -/
def inputOpcodes : List Byte :=
  [0x40, 0x48, 0x50, 0x58, 0x60, 0x68, 0x70, 0x78, 0xA2, 0xAA, 0xB2, 0xBA]

/-- The opcodes of the page of extensions that send a byte: `OUT` and `OUTI` with its kin. -/
def outputOpcodes : List Byte :=
  [0x41, 0x49, 0x51, 0x59, 0x61, 0x69, 0x71, 0x79, 0xA3, 0xAB, 0xB3, 0xBB]

theorem spelledBy_receives :
    SpelledBy (fun instruction => instruction.receives = true) [0xDB] inputOpcodes where
  plain := by decide +kernel
  extended := by decide +kernel
  indexed := by
    intro index
    cases index <;> decide +kernel
  bits := by
    intro opcode target copy
    unfold Page.bitInstruction
    split <;> exact Bool.false_ne_true

theorem spelledBy_sends :
    SpelledBy (fun instruction => instruction.sends = true) [0xD3] outputOpcodes where
  plain := by decide +kernel
  extended := by decide +kernel
  indexed := by
    intro index
    cases index <;> decide +kernel
  bits := by
    intro opcode target copy
    unfold Page.bitInstruction
    split <;> exact Bool.false_ne_true

/-- No instruction does both. -/
theorem Instruction.exchanges_le (instruction : Instruction) :
    instruction.receives.toNat + instruction.sends.toNat ≤ 1 := by
  cases instruction with
  | inputDirect | input | outputDirect | output => exact Nat.le_refl 1
  | block op =>
      cases op with
      | input | output => exact Nat.le_refl 1
      | load | compare => exact Nat.zero_le 1
  | _ => exact Nat.zero_le 1

/-! ## Counting accesses -/

/-- How many accesses there are at most, and how many of them exchange a byte with a device. -/
structure Tallies (accesses : List Event) (receives sends : Bool) : Prop where
  all : accesses.length ≤ 2
  received : (receivedBytes accesses).length = receives.toNat
  sent : (sentBytes accesses).length = sends.toNat

namespace Tallies

variable {accesses : List Event} {receives sends : Bool}

theorem writes_le (htallies : Tallies accesses receives sends) :
    (writtenAddresses accesses).length ≤ 2 := by
  rw [writtenAddresses, List.length_map]
  exact Nat.le_trans (List.length_filterMap_le _ _) htallies.all

theorem received_iff (htallies : Tallies accesses receives sends) :
    receivedBytes accesses ≠ [] ↔ receives = true := by
  rw [← List.length_pos_iff, htallies.received]
  cases receives <;> simp

theorem sent_iff (htallies : Tallies accesses receives sends) :
    sentBytes accesses ≠ [] ↔ sends = true := by
  rw [← List.length_pos_iff, htallies.sent]
  cases sends <;> simp

end Tallies

theorem tallies_nil : Tallies [] false false :=
  ⟨Nat.zero_le 2, rfl, rfl⟩

theorem tallies_write (address : Word) (value : Byte) :
    Tallies [.memoryWrite address value] false false :=
  ⟨Nat.le_succ 1, rfl, rfl⟩

theorem tallies_received (device : Word) (value : Byte) :
    Tallies [.received device value] true false :=
  ⟨Nat.le_succ 1, rfl, rfl⟩

theorem tallies_sent (device : Word) (value : Byte) : Tallies [.sent device value] false true :=
  ⟨Nat.le_succ 1, rfl, rfl⟩

theorem tallies_wordWrites (address value : Word) :
    Tallies (Machine.wordWrites address value) false false :=
  ⟨Nat.le_refl 2, rfl, rfl⟩

theorem tallies_pushWrites (machine : Machine) (value : Word) :
    Tallies (machine.pushWrites value) false false :=
  ⟨Nat.le_refl 2, rfl, rfl⟩

theorem tallies_placeWrites (place : Place) (value : Byte) :
    Tallies (place.writes value) false false := by
  cases place with
  | reg register => exact tallies_nil
  | cell address => exact tallies_write _ _

theorem Instruction.tallies (instruction : Instruction) (machine : Machine) (behind : Word) :
    Tallies (instruction.accesses machine behind) instruction.receives instruction.sends := by
  cases instruction with
  | load | loadByte | edit => exact tallies_placeWrites _ _
  | storeWordDirect | exchangeTop => exact tallies_wordWrites _ _
  | push | call | restart => exact tallies_pushWrites machine _
  | callIf condition =>
      show Tallies (if condition.holds machine.registers.flags then
        machine.pushWrites (behind + 2) else []) false false
      cases condition.holds machine.registers.flags with
      | true => exact tallies_pushWrites machine _
      | false => exact tallies_nil
  | storeThrough | storeDirect | rotateDigit => exact tallies_write _ _
  | inputDirect | input => exact tallies_received _ _
  | outputDirect | output => exact tallies_sent _ _
  | block op =>
      cases op with
      | load => exact tallies_write _ _
      | compare => exact tallies_nil
      | input => exact ⟨Nat.le_refl 2, rfl, rfl⟩
      | output => exact tallies_sent _ _
  | _ => exact tallies_nil

/-! ## Steps -/

namespace Machine

variable {machine : Machine}

/-- The step enters an interrupt routine: it serves a non-maskable request, or a maskable one in
mode zero or one. -/
def EntersInterrupt (machine : Machine) : Prop :=
  machine.devices.lines.nonMaskable = true ∨
    machine.MaskableDue ∧ machine.interrupts.mode ≠ .two

theorem NothingDue.not_entersInterrupt (hnothing : machine.NothingDue) :
    ¬machine.EntersInterrupt := by
  rintro (hraised | ⟨hdue, _⟩)
  · exact Bool.false_ne_true (hnothing.noNonMaskable.symm.trans hraised)
  · exact hdue.not_nothingDue hnothing

/-- In mode two a request is dropped. -/
theorem MaskableDue.not_entersInterrupt (hdue : machine.MaskableDue)
    (hmode : machine.interrupts.mode = .two) : ¬machine.EntersInterrupt := by
  rintro (hraised | ⟨_, hother⟩)
  · exact Bool.false_ne_true (hdue.noNonMaskable.symm.trans hraised)
  · exact hother hmode

/-- The accesses of a step, by its kind. -/
inductive StepAccesses (machine : Machine) : List Event → Prop
  /-- A non-maskable request is served. -/
  | nonMaskable (hraised : machine.devices.lines.nonMaskable = true) :
      StepAccesses machine (machine.pushWrites machine.registers.pc)
  /-- A maskable request is served. -/
  | served (hdue : machine.MaskableDue) (hmode : machine.interrupts.mode ≠ .two) :
      StepAccesses machine (machine.pushWrites machine.registers.pc)
  /-- A maskable request is dropped. -/
  | dropped (hdue : machine.MaskableDue) (hmode : machine.interrupts.mode = .two) :
      StepAccesses machine []
  /-- The processor is halted and idles. -/
  | idle (hnothing : machine.NothingDue) (hhalted : machine.halted = true) :
      StepAccesses machine []
  /-- The bytes at the program counter select no entry. -/
  | unhandled (hexecutes : machine.Executes)
      (hnone : machine.memory.entryAt? machine.registers.pc = none) : StepAccesses machine []
  /-- The entry that they select is executed. -/
  | executed {entry : Entry} (hexecutes : machine.Executes)
      (hentry : entry ∈ machine.memory.entryAt? machine.registers.pc) :
      StepAccesses machine (entry.instruction.accesses machine machine.behindCode)

/-- Reading a code moves the machine on and does nothing else. -/
theorem fetchCode_moved (machine : Machine) :
    ∃ r operands, machine.fetchCode.2 =
      machine.moved machine.fetchCode.2.registers.pc r operands machine.cycles := by
  have hindexed (machine : Machine) (index : Index) :
      ∃ r operands, (machine.fetchIndexedOpcode index).2 =
        machine.moved (machine.fetchIndexedOpcode index).2.registers.pc r operands
          machine.cycles := by
    unfold fetchIndexedOpcode
    dsimp only
    split
    · simp only [fetchOperand, fetch, jump, update, Registers.refresh]
      exact ⟨_, _, rfl⟩
    · exact ⟨_, _, rfl⟩
  unfold fetchCode fetch
  dsimp only
  split
  · exact ⟨_, _, rfl⟩
  split
  · exact ⟨_, _, rfl⟩
  split
  · exact hindexed (machine.jump _) .ix
  split
  · exact hindexed (machine.jump _) .iy
  · exact ⟨_, _, rfl⟩

theorem accesses_fetched (machine : Machine) (instruction : Instruction) :
    instruction.accesses machine.begun.fetchCode.2 machine.begun.fetchCode.2.registers.pc =
      instruction.accesses machine machine.behindCode := by
  obtain ⟨r, operands, hmoved⟩ := machine.begun.fetchCode_moved
  have hpc : machine.begun.fetchCode.2.registers.pc = machine.behindCode := begun_fetches.pc
  have hbegun : machine.begun =
      machine.moved machine.registers.pc machine.registers.r {} machine.cycles.begin := rfl
  rw [hpc, hmoved, Instruction.accesses_moved, hbegun, Instruction.accesses_moved]

/-- Performing an entry makes the accesses of its instruction. -/
theorem perform_hasMade (machine : Machine) (entry : Entry) :
    machine.HasMade (entry.instruction.accesses machine machine.registers.pc)
      (machine.perform entry) := by
  unfold perform
  cases entry.cost with
  | fixed cycles =>
      have hspent : machine.HasMade [] (machine.spend cycles) := .quiet rfl rfl
      have hexecuted := (machine.spend cycles).execute_hasMade entry.instruction
      have hmoved : machine.spend cycles = machine.moved machine.registers.pc machine.registers.r
          machine.operands (machine.cycles.spend cycles) := rfl
      -- The accesses are those of the machine before the cycles are spent.
      have hsame : entry.instruction.accesses (machine.spend cycles) machine.registers.pc =
          entry.instruction.accesses machine machine.registers.pc := by
        rw [hmoved, Instruction.accesses_moved]
      rw [← hsame]
      exact hspent.trans hexecuted
  | dynamic => exact machine.execute_hasMade entry.instruction

theorem Executes.stepAccesses (hexecutes : machine.Executes) :
    ∃ accesses, machine.StepAccesses accesses ∧ machine.HasMade accesses machine.step := by
  have hstep := hexecutes.step_eq_elim
  have hfetched : machine.HasMade [] machine.begun.fetchCode.2 :=
    .quiet begun_fetches.memory log_begun_fetchCode
  cases hentry : machine.memory.entryAt? machine.registers.pc with
  | none =>
      rw [hentry, Option.elim_none] at hstep
      refine ⟨[], .unhandled hexecutes hentry, ?_⟩
      rw [hstep]
      exact (hfetched.emit rfl).spend _
  | some entry =>
      rw [hentry, Option.elim_some] at hstep
      refine ⟨_, .executed hexecutes hentry, ?_⟩
      rw [hstep, ← accesses_fetched]
      exact (hfetched.trans (machine.begun.fetchCode.2.perform_hasMade entry)).emit rfl

/-- A call for a request makes the writes of its push. -/
theorem hasMade_of_call {prepared : Machine} {notice : Notice} {address : Word}
    (hstep : machine.step = (prepared.call address).spend interruptCost)
    (hlog : prepared.log = machine.log.push (.notice notice))
    (hmemory : prepared.memory = machine.memory) (hwindow : prepared.window = machine.window)
    (hregisters : prepared.registers = machine.registers) :
    machine.HasMade (machine.pushWrites machine.registers.pc) machine.step := by
  have hnotice : machine.HasMade [] (machine.emit (.notice notice)) :=
    (HasMade.refl machine).emit rfl
  have hcalled := (hnotice.elsewhere hmemory hlog).call address
  rw [pushWrites, hwindow, hregisters] at hcalled
  rw [hstep]
  exact hcalled.spend _

/-- Every step makes the accesses of its kind. -/
theorem step_hasMade (machine : Machine) :
    ∃ accesses, machine.StepAccesses accesses ∧ machine.HasMade accesses machine.step := by
  cases machine.stepKind with
  | nonMaskable hraised =>
      have hstep := step_nonMaskable hraised
      exact ⟨_, .nonMaskable hraised, hasMade_of_call hstep rfl rfl rfl rfl⟩
  | served hdue hmode =>
      have hstep := step_maskable_of_served hdue hmode
      exact ⟨_, .served hdue hmode, hasMade_of_call hstep rfl rfl rfl rfl⟩
  | dropped hdue hmode =>
      refine ⟨[], .dropped hdue hmode, ?_⟩
      rw [step_dropped hdue hmode]
      exact ((HasMade.refl machine).emit rfl).elsewhere rfl rfl
  | idle hnothing hhalted =>
      refine ⟨[], .idle hnothing hhalted, ?_⟩
      rw [step_idle hnothing hhalted]
      exact .quiet rfl rfl
  | executes hexecutes => exact hexecutes.stepAccesses

/-! ## The frame of a step -/

/-- The step executes an input instruction: `IN A,(n)` or one of the page of extensions. -/
def ExecutesInput (machine : Machine) : Prop :=
  machine.Executes ∧ (machine.read machine.registers.pc = 0xDB ∨
    machine.read machine.registers.pc = 0xED ∧
      machine.read (machine.registers.pc + 1) ∈ inputOpcodes)

/-- The step executes an output instruction: `OUT (n),A` or one of the page of extensions. -/
def ExecutesOutput (machine : Machine) : Prop :=
  machine.Executes ∧ (machine.read machine.registers.pc = 0xD3 ∨
    machine.read machine.registers.pc = 0xED ∧
      machine.read (machine.registers.pc + 1) ∈ outputOpcodes)

theorem Executes.executesInput_iff (hexecutes : machine.Executes) :
    machine.ExecutesInput ↔
      ∃ entry ∈ machine.memory.entryAt? machine.registers.pc,
        entry.instruction.receives = true := by
  have hspelled := spelledBy_receives.entryAt_iff machine.memory machine.registers.pc
  rw [hspelled, List.mem_singleton]
  exact and_iff_right hexecutes

theorem Executes.executesOutput_iff (hexecutes : machine.Executes) :
    machine.ExecutesOutput ↔
      ∃ entry ∈ machine.memory.entryAt? machine.registers.pc,
        entry.instruction.sends = true := by
  have hspelled := spelledBy_sends.entryAt_iff machine.memory machine.registers.pc
  rw [hspelled, List.mem_singleton]
  exact and_iff_right hexecutes

/-- A step makes the accesses of an instruction, or it executes none and exchanges no bytes. -/
theorem StepAccesses.entry_or_tallies {accesses : List Event}
    (hkind : machine.StepAccesses accesses) :
    (machine.Executes ∧ ∃ entry ∈ machine.memory.entryAt? machine.registers.pc,
        accesses = entry.instruction.accesses machine machine.behindCode) ∨
      Tallies accesses false false ∧
        ∀ entry ∈ machine.memory.entryAt? machine.registers.pc, ¬machine.Executes := by
  cases hkind with
  | nonMaskable hraised =>
      refine .inr ⟨tallies_pushWrites _ _, fun _ _ hexecutes => ?_⟩
      exact Bool.false_ne_true (hexecutes.noNonMaskable.symm.trans hraised)
  | served hdue => exact .inr ⟨tallies_pushWrites _ _, fun _ _ => hdue.not_executes⟩
  | dropped hdue => exact .inr ⟨tallies_nil, fun _ _ => hdue.not_executes⟩
  | idle _ hhalted =>
      refine .inr ⟨tallies_nil, fun _ _ hexecutes => ?_⟩
      exact Bool.false_ne_true (hexecutes.running.symm.trans hhalted)
  | unhandled _ hnone =>
      refine .inr ⟨tallies_nil, fun entry hentry => ?_⟩
      rw [hnone] at hentry
      exact absurd hentry (Option.not_mem_none entry)
  | executed hexecutes hentry => exact .inl ⟨hexecutes, _, hentry, rfl⟩

/-- A step accesses at most two places, and exchanges a byte with a device exactly if it executes an
instruction that does. -/
theorem StepAccesses.tallies {accesses : List Event} (hkind : machine.StepAccesses accesses) :
    ∃ receives sends : Bool, Tallies accesses receives sends ∧
      receives.toNat + sends.toNat ≤ 1 ∧
      (receives = true ↔ machine.ExecutesInput) ∧ (sends = true ↔ machine.ExecutesOutput) := by
  rcases hkind.entry_or_tallies with ⟨hexecutes, entry, hentry, rfl⟩ | ⟨htallies, hnone⟩
  · refine ⟨_, _, entry.instruction.tallies machine _, entry.instruction.exchanges_le, ?_, ?_⟩
    · rw [hexecutes.executesInput_iff, Option.mem_def.1 hentry]
      simp
    · rw [hexecutes.executesOutput_iff, Option.mem_def.1 hentry]
      simp
  · refine ⟨false, false, htallies, Nat.zero_le 1, ?_, ?_⟩
    · refine iff_of_false Bool.false_ne_true fun hinput => ?_
      obtain ⟨entry, hentry, _⟩ := hinput.1.executesInput_iff.1 hinput
      exact hnone entry hentry hinput.1
    · refine iff_of_false Bool.false_ne_true fun houtput => ?_
      obtain ⟨entry, hentry, _⟩ := houtput.1.executesOutput_iff.1 houtput
      exact hnone entry hentry houtput.1

/-- The place that the opcode at the program counter writes to, if it is listed. -/
def storeAt? (machine : Machine) : Option Store :=
  (machine.memory.code machine.registers.pc).page.store?
    (machine.memory.code machine.registers.pc).opcode

/-- The addresses that a step writes to, by the opcode. -/
inductive StepWrites (machine : Machine) : List Word → Prop
  /-- An interrupt routine is entered. -/
  | enters (henters : machine.EntersInterrupt) : StepWrites machine machine.pushAddresses
  /-- A listed opcode is executed. -/
  | stores {store : Store} (hexecutes : machine.Executes) (hstore : store ∈ machine.storeAt?) :
      StepWrites machine (store.addresses machine)
  /-- Neither. -/
  | nothing (henters : ¬machine.EntersInterrupt)
      (hstores : machine.Executes → machine.storeAt? = none) : StepWrites machine []

/-- A step writes to the addresses of its opcode. -/
theorem StepAccesses.stepWrites {accesses : List Event} (hkind : machine.StepAccesses accesses) :
    machine.StepWrites (writtenAddresses accesses) := by
  have hlisted : machine.storeAt? =
      (machine.memory.entryAt? machine.registers.pc).bind (·.instruction.store?) :=
    Code.store?_eq _
  cases hkind with
  | nonMaskable hraised => exact .enters (.inl hraised)
  | served hdue hmode => exact .enters (.inr ⟨hdue, hmode⟩)
  | dropped hdue hmode =>
      exact .nothing (hdue.not_entersInterrupt hmode)
        fun hexecutes => absurd hexecutes hdue.not_executes
  | idle hnothing hhalted =>
      refine .nothing hnothing.not_entersInterrupt fun hexecutes => ?_
      exact absurd (hexecutes.running.symm.trans hhalted) Bool.false_ne_true
  | unhandled hexecutes hnone =>
      refine .nothing hexecutes.nothingDue.not_entersInterrupt fun _ => ?_
      rw [hlisted, hnone, Option.bind_none]
  | executed hexecutes hentry =>
      rw [Option.mem_def.1 hentry, Option.bind_some] at hlisted
      rw [writtenAddresses_accesses hentry, ← hlisted]
      cases hstore : machine.storeAt? with
      | none => exact .nothing hexecutes.nothingDue.not_entersInterrupt fun _ => hstore
      | some store => exact .stores hexecutes hstore

/-- All that a step does to memory and devices. -/
structure StepFrame (machine : Machine) (accesses : List Event) : Prop where
  kind : machine.StepAccesses accesses
  writes : machine.StepWrites (writtenAddresses accesses)
  made : machine.HasMade accesses machine.step
  writes_le : (writtenAddresses accesses).length ≤ 2
  untouched : ∀ address, address ∉ writtenAddresses accesses →
    machine.step.memory.read address = machine.memory.read address
  exchanges_le : (receivedBytes accesses).length + (sentBytes accesses).length ≤ 1
  received_iff : receivedBytes accesses ≠ [] ↔ machine.ExecutesInput
  sent_iff : sentBytes accesses ≠ [] ↔ machine.ExecutesOutput

/-- Every step keeps to the frame of its kind. -/
theorem stepFrame (machine : Machine) : ∃ accesses, machine.StepFrame accesses := by
  obtain ⟨accesses, hkind, hmade⟩ := machine.step_hasMade
  obtain ⟨receives, sends, htallies, hexchanges, hreceives, hsends⟩ := hkind.tallies
  refine ⟨accesses, ?_⟩
  exact
    { kind := hkind
      writes := hkind.stepWrites
      made := hmade
      writes_le := htallies.writes_le
      untouched := by
        intro address hother
        rw [hmade.memory]
        exact machine.memory.read_replay_other hother
      exchanges_le := by
        rw [htallies.received, htallies.sent]
        exact hexchanges
      received_iff := by rw [htallies.received_iff, hreceives]
      sent_iff := by rw [htallies.sent_iff, hsends] }

end Machine

end Z80
