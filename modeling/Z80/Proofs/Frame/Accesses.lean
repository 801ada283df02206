import Z80.Proofs.Indexed.Cell
import Z80.Proofs.Stack.Effect

/-!
# What an instruction accesses

The writes to memory and the exchanges with devices that an instruction makes are settled by the
machine that it finds. `Instruction.accesses` lists them in their order, with every address and
byte, and `Machine.execute_hasMade` says that an instruction makes just these. The log and the
memory agree on them: the memory is the one before with the writes in the log replayed.
-/

namespace Z80

/-! ## Accesses in a log -/

/-- The event is a write to memory or an exchange with a device. -/
def Event.isAccess : Event → Bool
  | .memoryWrite _ _ | .received _ _ | .sent _ _ => true
  | _ => false

/-- The memory after the writes among some events. -/
def Memory.replay (memory : Memory) (events : List Event) : Memory :=
  (events.filterMap Event.memoryWrite?).foldl (fun memory write => memory.write write.1 write.2)
    memory

/-- The addresses of the writes among some events, in their order. -/
def writtenAddresses (events : List Event) : List Word :=
  (events.filterMap Event.memoryWrite?).map Prod.fst

theorem Memory.replay_append (memory : Memory) (first second : List Event) :
    memory.replay (first ++ second) = (memory.replay first).replay second := by
  simp [replay]

/-- A byte to which nothing is written stays as it is. -/
theorem Memory.read_replay_other (memory : Memory) {events : List Event} {address : Word}
    (hother : address ∉ writtenAddresses events) :
    (memory.replay events).read address = memory.read address := by
  unfold replay
  unfold writtenAddresses at hother
  generalize events.filterMap Event.memoryWrite? = writes at hother ⊢
  induction writes generalizing memory with
  | nil => rfl
  | cons write writes ih =>
      rw [List.map_cons, List.mem_cons, not_or] at hother
      rw [List.foldl_cons, ih _ hother.2, Memory.read_write_other _ _ (Ne.symm hother.1)]

namespace Machine

/-- Since a starting point, a machine has made some accesses and no others. -/
structure HasMade (start : Machine) (accesses : List Event) (machine : Machine) : Prop where
  log : ∃ events, machine.log.toList = start.log.toList ++ events ∧
    events.filter Event.isAccess = accesses
  memory : machine.memory = start.memory.replay accesses

variable {start machine : Machine} {accesses : List Event}

namespace HasMade

/-- Without a new event, and with the memory as it was, there were no accesses. -/
theorem quiet (hmemory : machine.memory = start.memory) (hlog : machine.log = start.log) :
    start.HasMade [] machine where
  log := ⟨[], by rw [hlog, List.append_nil], rfl⟩
  memory := hmemory

theorem refl (machine : Machine) : machine.HasMade [] machine :=
  quiet rfl rfl

theorem trans {between : Machine} {first second : List Event} (hfirst : start.HasMade first between)
    (hsecond : between.HasMade second machine) : start.HasMade (first ++ second) machine := by
  obtain ⟨early, hbetween, rfl⟩ := hfirst.log
  obtain ⟨late, hafter, rfl⟩ := hsecond.log
  refine ⟨⟨early ++ late, ?_, List.filter_append ..⟩, ?_⟩
  · rw [hafter, hbetween, List.append_assoc]
  · rw [hsecond.memory, hfirst.memory, Memory.replay_append]

/-- Changes elsewhere in the machine do not matter. -/
theorem elsewhere (hmade : start.HasMade accesses machine) {next : Machine}
    (hmemory : next.memory = machine.memory) (hlog : next.log = machine.log) :
    start.HasMade accesses next := by
  have hnext := hmade.trans (quiet hmemory hlog)
  rw [List.append_nil] at hnext
  exact hnext

theorem update (hmade : start.HasMade accesses machine) (change : Registers → Registers) :
    start.HasMade accesses (machine.update change) :=
  hmade.elsewhere rfl rfl

theorem updateLines (hmade : start.HasMade accesses machine) (change : Lines → Lines) :
    start.HasMade accesses (machine.updateLines change) :=
  hmade.elsewhere rfl rfl

theorem updateInterrupts (hmade : start.HasMade accesses machine)
    (change : Interrupts → Interrupts) :
    start.HasMade accesses (machine.updateInterrupts change) :=
  hmade.elsewhere rfl rfl

theorem jump (hmade : start.HasMade accesses machine) (address : Word) :
    start.HasMade accesses (machine.jump address) :=
  hmade.update _

theorem spend (hmade : start.HasMade accesses machine) (count : BitVec 32) :
    start.HasMade accesses (machine.spend count) :=
  hmade.elsewhere rfl rfl

theorem spendBranch (hmade : start.HasMade accesses machine) (cost : BranchCost) (taken : Bool) :
    start.HasMade accesses (machine.spendBranch cost taken) :=
  hmade.spend _

/-- Where an effect is conditional, the accesses are those of the way taken. -/
theorem ite {taken skipped : Machine} (condition : Bool) {first second : List Event}
    (htaken : start.HasMade first taken) (hskipped : start.HasMade second skipped) :
    start.HasMade (if condition then first else second) (if condition then taken else skipped) := by
  cases condition with
  | true => exact htaken
  | false => exact hskipped

/-- Where both ways make the same accesses, it does not matter which is taken. -/
theorem either {taken skipped : Machine} (condition : Bool)
    (htaken : start.HasMade accesses taken) (hskipped : start.HasMade accesses skipped) :
    start.HasMade accesses (if condition then taken else skipped) := by
  have hmade := ite condition htaken hskipped
  rw [ite_self] at hmade
  exact hmade

/-! ### Events -/

/-- An event that is no access, such as a fault or a notice. -/
theorem emit (hmade : start.HasMade accesses machine) {event : Event}
    (hevent : event.isAccess = false) : start.HasMade accesses (machine.emit event) := by
  have hemitted : machine.HasMade [] (machine.emit event) :=
    ⟨⟨[event], Array.toList_push, List.filter_eq_nil_iff.2 (by simp [hevent])⟩, rfl⟩
  have hnext := hmade.trans hemitted
  rw [List.append_nil] at hnext
  exact hnext

theorem write (hmade : start.HasMade accesses machine) (address : Word) (value : Byte) :
    start.HasMade (accesses ++ [.memoryWrite address value]) (machine.write address value) :=
  hmade.trans ⟨⟨[.memoryWrite address value], Array.toList_push, rfl⟩, rfl⟩

theorem receive (hmade : start.HasMade accesses machine) (device : Word) :
    start.HasMade (accesses ++ [.received device machine.devices.take.1])
      (machine.receive device).2 :=
  hmade.trans ⟨⟨[.received device machine.devices.take.1], Array.toList_push, rfl⟩, rfl⟩

theorem send (hmade : start.HasMade accesses machine) (device : Word) (value : Byte) :
    start.HasMade (accesses ++ [.sent device value]) (machine.send device value) :=
  hmade.trans ⟨⟨[.sent device value], Array.toList_push, rfl⟩, rfl⟩

end HasMade

/-! ## Words -/

/-- The writes of a word to memory, low byte first. -/
def wordWrites (address value : Word) : List Event :=
  [.memoryWrite address (lowByte value), .memoryWrite (address + 1) (highByte value)]

/-- The writes of a push, high byte first: they go to the two values that the stack pointer takes on
its way down. -/
def pushWrites (machine : Machine) (value : Word) : List Event :=
  let first := (machine.window.decrement machine.registers.sp).1
  let second := (machine.window.decrement first).1
  [.memoryWrite first (highByte value), .memoryWrite second (lowByte value)]

namespace HasMade

theorem writeWord (hmade : start.HasMade accesses machine) (address value : Word) :
    start.HasMade (accesses ++ wordWrites address value) (machine.writeWord address value) := by
  have hwritten := (hmade.write address (lowByte value)).write (address + 1) (highByte value)
  rw [List.append_assoc] at hwritten
  exact hwritten

theorem push (hmade : start.HasMade accesses machine) (value : Word) :
    start.HasMade (accesses ++ machine.pushWrites value) (machine.push value) := by
  refine hmade.trans ⟨⟨machine.pushEvents value, toList_log_push _ _, ?_⟩, ?_⟩
  · have hfault (fault : Option Fault) :
        (fault.map Event.fault).toList.filter Event.isAccess = [] := by
      cases fault <;> rfl
    simp [pushEvents, pushWrites, hfault, List.filter_cons, Event.isAccess]
  · rw [push_eq]
    rfl

theorem call (hmade : start.HasMade accesses machine) (address : Word) :
    start.HasMade (accesses ++ machine.pushWrites machine.registers.pc) (machine.call address) :=
  (hmade.push machine.registers.pc).jump address

theorem report (hmade : start.HasMade accesses machine) (fault : Option Fault) :
    start.HasMade accesses (machine.report fault) := by
  cases fault with
  | none => exact hmade
  | some fault => exact hmade.emit rfl

theorem raiseStack (hmade : start.HasMade accesses machine) :
    start.HasMade accesses machine.raiseStack := by
  unfold Machine.raiseStack
  exact (hmade.report _).elsewhere rfl rfl

/-- A pop reads only. -/
theorem pop (hmade : start.HasMade accesses machine) : start.HasMade accesses machine.pop.2 :=
  hmade.raiseStack.raiseStack

theorem ret (hmade : start.HasMade accesses machine) : start.HasMade accesses machine.ret :=
  hmade.pop.jump _

end HasMade

end Machine

/-! ## Operands -/

/-- The writes that putting a byte at a place makes. -/
def Place.writes (place : Place) (value : Byte) : List Event :=
  match place with
  | .reg _ => []
  | .cell address => [.memoryWrite address value]

/-- The place of an operand whose displacement, if it has one, stands at an address. -/
def Operand.place (machine : Machine) (address : Word) : Operand → Place
  | .reg register => .reg register
  | .indirect => .cell machine.registers.hl
  | .displaced index => .cell (machine.cellAddress index (machine.read address))
  | .offset index displacement => .cell (machine.cellAddress index displacement)

namespace Machine

variable {start machine : Machine} {accesses : List Event}

/-- The machine behind other operand bytes, with other refreshes and cycles counted. -/
def moved (machine : Machine) (pc : Word) (r : Byte) (operands : OperandBytes) (cycles : Cycles) :
    Machine :=
  { machine with
    registers := { machine.registers with pc, r }
    operands
    cycles }

/-- The machine behind a number of operand bytes. -/
def past (machine : Machine) (count : Nat) : Machine :=
  machine.moved (machine.registers.pc + BitVec.ofNat 16 count) machine.registers.r
    (machine.operands.recordAll (machine.memory.slice machine.registers.pc count)) machine.cycles

@[simp] theorem past_zero (machine : Machine) : machine.past 0 = machine := by
  simp [past, moved, Memory.slice]

/-- Locating an operand reads its displacement, if it has one. -/
theorem locate_eq (machine : Machine) (operand : Operand) :
    machine.locate operand =
      (operand.place machine machine.registers.pc, machine.past operand.operandCount) := by
  cases operand with
  | reg | indirect => simp [locate, Operand.place, Operand.operandCount]
  | offset => simp [locate, Operand.place, Operand.operandCount, displaced_eq_cellAddress]
  | displaced index =>
      rw [Operand.place, ← displaced_eq_cellAddress]
      rfl

theorem fetchOperandWord_eq (machine : Machine) :
    machine.fetchOperandWord = (machine.readWord machine.registers.pc, machine.past 2) := by
  have hpc : machine.registers.pc + 1 + 1 = machine.registers.pc + 2 := BitVec.add_assoc ..
  simp only [fetchOperandWord, fetchOperand, fetch, jump, update, past, moved, Memory.slice, hpc]
  rfl

/-! ## Instructions -/

/-- The accesses of one round of a block instruction. -/
def blockAccesses (machine : Machine) : BlockOp → List Event
  | .load => [.memoryWrite machine.registers.de (machine.read machine.registers.hl)]
  | .compare => []
  | .input =>
      [.received machine.registers.bc machine.devices.take.1,
        .memoryWrite machine.registers.hl machine.devices.take.1]
  | .output => [.sent machine.registers.countByte.bc (machine.read machine.registers.hl)]

end Machine

open Machine in
/-- The accesses of an instruction whose operand bytes begin at an address, in their order. -/
def Instruction.accesses (machine : Machine) (behind : Word) : Instruction → List Event
  | .load target source =>
      let value := machine.get (source.place machine behind)
      (target.place machine (behind + BitVec.ofNat 16 source.operandCount)).writes value
  | .loadByte target =>
      let value := machine.read (behind + BitVec.ofNat 16 target.operandCount)
      (target.place machine behind).writes value
  | .storeThrough pointer =>
      [.memoryWrite (machine.registers.getWord pointer) machine.registers.a]
  | .storeDirect => [.memoryWrite (machine.readWord behind) machine.registers.a]
  | .storeWordDirect source =>
      wordWrites (machine.readWord behind) (machine.registers.getWord source)
  | .push source => machine.pushWrites (machine.registers.getWord source)
  | .exchangeTop register =>
      wordWrites machine.registers.sp (machine.registers.getWord register)
  | .edit change target _ =>
      let place := target.place machine behind
      place.writes (machine.registers.edit change (machine.get place)).1
  | .rotateDigit rotation =>
      let value := machine.read machine.registers.hl
      [.memoryWrite machine.registers.hl (machine.registers.rotateDigit rotation value).1]
  | .call => machine.pushWrites (behind + 2)
  | .callIf condition =>
      if condition.holds machine.registers.flags then machine.pushWrites (behind + 2) else []
  | .restart _ => machine.pushWrites behind
  | .inputDirect =>
      [.received (joinBytes machine.registers.a (machine.read behind)) machine.devices.take.1]
  | .outputDirect =>
      [.sent (joinBytes machine.registers.a (machine.read behind)) machine.registers.a]
  | .input _ => [.received machine.registers.bc machine.devices.take.1]
  | .output source =>
      [.sent machine.registers.bc (source.elim 0 machine.registers.getByte)]
  | .block op _ _ => machine.blockAccesses op
  | _ => []

/-- They do not depend on where the instruction stands, except for its operand bytes. -/
theorem Instruction.accesses_moved (instruction : Instruction) (machine : Machine) (pc : Word)
    (r : Byte) (operands : OperandBytes) (cycles : Cycles) (behind : Word) :
    instruction.accesses (machine.moved pc r operands cycles) behind =
      instruction.accesses machine behind := by
  cases instruction with
  | block op => cases op <;> rfl
  | _ => rfl

namespace Machine

variable {start machine : Machine} {accesses : List Event}

namespace HasMade

theorem put (hmade : start.HasMade accesses machine) (place : Place) (value : Byte) :
    start.HasMade (accesses ++ place.writes value) (machine.put place value) := by
  cases place with
  | reg register =>
      rw [Place.writes, List.append_nil]
      exact hmade.elsewhere rfl rfl
  | cell address => exact hmade.write address value

theorem edit (hmade : start.HasMade accesses machine) (edit : Edit) (place : Place) :
    start.HasMade (accesses ++ place.writes (machine.registers.edit edit (machine.get place)).1)
      (machine.edit edit place).2 := by
  have hflagged : start.HasMade accesses
      { machine with registers := (machine.registers.edit edit (machine.get place)).2 } :=
    hmade.elsewhere rfl rfl
  exact hflagged.put place _

theorem past (hmade : start.HasMade accesses machine) (count : Nat) :
    start.HasMade accesses (machine.past count) :=
  hmade.elsewhere rfl rfl

theorem branch (hmade : start.HasMade accesses machine) (cost : BranchCost) (taken : Bool) :
    start.HasMade accesses (machine.branch cost taken) :=
  (either taken ((hmade.past 1).jump _) (hmade.past 1)).spendBranch cost taken

end HasMade

theorem blockRound_hasMade (machine : Machine) (op : BlockOp) (direction : Direction) :
    machine.HasMade (machine.blockAccesses op) (machine.blockRound op direction).2 := by
  have hstart := HasMade.refl machine
  cases op with
  | load =>
      exact (hstart.write machine.registers.de _).elsewhere rfl rfl
  | compare => exact hstart.elsewhere rfl rfl
  | input =>
      exact ((hstart.receive machine.registers.bc).write machine.registers.hl _).elsewhere rfl rfl
  | output =>
      exact (hstart.send machine.registers.countByte.bc
        (machine.read machine.registers.hl)).elsewhere rfl rfl

/-- Every instruction makes the accesses that it is said to make. -/
theorem execute_hasMade (machine : Machine) (instruction : Instruction) :
    machine.HasMade (instruction.accesses machine machine.registers.pc)
      (machine.execute instruction) := by
  have hstart := HasMade.refl machine
  have hbyte := hstart.past 1
  have hword := hstart.past 2
  cases instruction with
  -- Instructions that read at most.
  | noOperation | enableInterrupts | disableInterrupts | interruptMode | loadThrough | loadDirect
  | loadSpecial | storeSpecial | loadWord | loadWordDirect | loadStackPointer | exchangeAccumulator
  | exchangeBank | exchangeData | arithmeticByte | accumulate | arithmeticWord | incrementWord
  | decrementWord | jump | jumpRelative | jumpTo =>
      exact .quiet rfl rfl
  | halt =>
      have hhalted : machine.HasMade [] { machine with halted := true } := .quiet rfl rfl
      exact hhalted.emit rfl
  | arithmetic op source | testBit position source =>
      simp only [execute, locate_eq]
      exact .quiet rfl rfl
  | pop target => exact hstart.pop.update (·.setWord target machine.pop.1)
  | jumpIf => exact .either _ (.quiet rfl rfl) (.quiet rfl rfl)
  | jumpRelativeIf => exact hstart.branch _ _
  | jumpCounted =>
      have hcounted : machine.HasMade [] (machine.update Registers.countByte) := .quiet rfl rfl
      exact hcounted.branch _ _
  | ret => exact hstart.ret
  | retIf => exact (HasMade.either _ hstart.ret hstart).spendBranch _ _
  | retNonMaskable => exact hstart.ret.updateInterrupts Interrupts.restore
  | retMaskable => exact hstart.ret.updateLines Lines.lowerMaskable
  -- Stores.
  | load target source =>
      simp only [execute, locate_eq]
      exact ((hstart.past _).past _).put _ _
  | loadByte target =>
      simp only [execute, locate_eq]
      exact ((hstart.past _).past 1).put _ _
  | storeThrough pointer => exact hstart.write _ _
  | storeDirect =>
      simp only [execute, fetchOperandWord_eq]
      exact hword.write _ _
  | storeWordDirect source =>
      simp only [execute, fetchOperandWord_eq]
      exact hword.writeWord _ _
  | exchangeTop register => exact (hstart.writeWord _ _).elsewhere rfl rfl
  | edit change target copy =>
      have hedited := (hstart.past target.operandCount).edit change
        (target.place machine machine.registers.pc)
      simp only [execute, locate_eq]
      cases copy with
      | none => exact hedited
      | some register => exact hedited.elsewhere rfl rfl
  | rotateDigit rotation =>
      have hrotated : machine.HasMade [] { machine with
          registers := (machine.registers.rotateDigit rotation
            (machine.read machine.registers.hl)).2 } :=
        .quiet rfl rfl
      exact hrotated.write _ _
  -- Calls.
  | push source => exact hstart.push _
  | call =>
      simp only [execute, fetchOperandWord_eq]
      exact hword.call _
  | callIf condition =>
      simp only [execute, fetchOperandWord_eq]
      exact (HasMade.ite _ (hword.call _) hword).spendBranch _ _
  | restart vector => exact hstart.call _
  -- Devices.
  | inputDirect => exact (hbyte.receive _).elsewhere rfl rfl
  | outputDirect => exact hbyte.send _ _
  | input target =>
      have hreceived := hstart.receive machine.registers.bc
      cases target with
      | none => exact hreceived.elsewhere rfl rfl
      | some register => exact hreceived.elsewhere rfl rfl
  | output source =>
      cases source with
      | none => exact hstart.send _ _
      | some register => exact hstart.send _ _
  | block op direction repeats =>
      have hround := machine.blockRound_hasMade op direction
      cases repeats with
      | false => exact hround
      | true => exact (HasMade.either _ (hround.jump _) hround).spendBranch _ _

end Machine

end Z80
