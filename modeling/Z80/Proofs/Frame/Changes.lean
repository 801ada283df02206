import Z80.Proofs.Block.Devices
import Z80.Proofs.Frame.Parts
import Z80.Proofs.Frame.Step

/-!
# What a step changes in the register file

An instruction changes the parts that its inventory names and passes its operand bytes
(`Machine.execute_keepsBut`). A step changes these together with the program counter and the
refresh counter, or what a call changes if it serves a request (`Machine.StepChanges`). On the way
nothing but bytes that select no instruction is reported as such (`SkipsNothing`).
-/

namespace Z80

/-- The event reports bytes that select no instruction. -/
def Event.isSkip : Event → Bool
  | .fault (.unhandledOpcode _ _) => true
  | _ => false

/-- A log goes on from another one without reporting bytes that select no instruction. -/
def SkipsNothing (before after : Array Event) : Prop :=
  ∃ events, after.toList = before.toList ++ events ∧ ∀ event ∈ events, event.isSkip = false

theorem Window.isSkip_decrement (window : Window) (sp : Word) :
    ∀ fault ∈ (window.decrement sp).2, (Event.fault fault).isSkip = false := by
  intro fault hfault
  unfold decrement at hfault
  dsimp only at hfault
  split at hfault
  · obtain rfl := Option.some.inj hfault
    rfl
  · exact absurd hfault (Option.not_mem_none fault)

theorem Window.isSkip_increment (window : Window) (sp : Word) :
    ∀ fault ∈ (window.increment sp).2, (Event.fault fault).isSkip = false := by
  intro fault hfault
  unfold increment at hfault
  dsimp only at hfault
  split at hfault
  · obtain rfl := Option.some.inj hfault
    rfl
  · exact absurd hfault (Option.not_mem_none fault)

namespace Machine

/-- Since a starting point, a machine has changed its registers in some parts at most, and has not
reported bytes that select no instruction. -/
structure KeepsBut (start : Machine) (parts : List Part) (machine : Machine) : Prop where
  registers : start.registers.ChangedIn parts machine.registers
  log : SkipsNothing start.log machine.log

variable {start machine : Machine} {parts : List Part}

namespace KeepsBut

theorem quiet (hregisters : machine.registers = start.registers)
    (hlog : machine.log = start.log) : start.KeepsBut [] machine where
  registers := by
    rw [hregisters]
    exact .refl _
  log := ⟨[], by rw [hlog, List.append_nil], nofun⟩

theorem refl (machine : Machine) : machine.KeepsBut [] machine :=
  quiet rfl rfl

theorem trans {between : Machine} {first second : List Part} (hfirst : start.KeepsBut first between)
    (hsecond : between.KeepsBut second machine) : start.KeepsBut (first ++ second) machine := by
  obtain ⟨early, hbetween, hearly⟩ := hfirst.log
  obtain ⟨late, hafter, hlate⟩ := hsecond.log
  refine ⟨hfirst.registers.trans hsecond.registers, early ++ late, ?_, ?_⟩
  · rw [hafter, hbetween, List.append_assoc]
  · intro event hevent
    exact (List.mem_append.1 hevent).elim (hearly event) (hlate event)

/-- A change in a part that has been changed before adds nothing. -/
theorem again {part : Part} (hkeeps : start.KeepsBut (parts ++ [part] ++ [part]) machine) :
    start.KeepsBut (parts ++ [part]) machine where
  registers := by
    intro other hother
    refine hkeeps.registers other fun hmember => hother ?_
    simp only [List.mem_append, or_self, or_assoc] at hmember ⊢
    exact hmember
  log := hkeeps.log

/-- Changes elsewhere in the machine do not matter. -/
theorem elsewhere (hkeeps : start.KeepsBut parts machine) {next : Machine}
    (hregisters : next.registers = machine.registers) (hlog : next.log = machine.log) :
    start.KeepsBut parts next := by
  have hnext := hkeeps.trans (quiet hregisters hlog)
  rw [List.append_nil] at hnext
  exact hnext

theorem spend (hkeeps : start.KeepsBut parts machine) (count : BitVec 32) :
    start.KeepsBut parts (machine.spend count) :=
  hkeeps.elsewhere rfl rfl

theorem spendBranch (hkeeps : start.KeepsBut parts machine) (cost : BranchCost) (taken : Bool) :
    start.KeepsBut parts (machine.spendBranch cost taken) :=
  hkeeps.spend _

theorem updateLines (hkeeps : start.KeepsBut parts machine) (change : Lines → Lines) :
    start.KeepsBut parts (machine.updateLines change) :=
  hkeeps.elsewhere rfl rfl

theorem updateInterrupts (hkeeps : start.KeepsBut parts machine)
    (change : Interrupts → Interrupts) :
    start.KeepsBut parts (machine.updateInterrupts change) :=
  hkeeps.elsewhere rfl rfl

/-- A change of the registers alone adds the parts that it changes. -/
theorem changed (hkeeps : start.KeepsBut parts machine) {next : Machine} {more : List Part}
    (hregisters : machine.registers.ChangedIn more next.registers)
    (hlog : next.log = machine.log) : start.KeepsBut (parts ++ more) next :=
  hkeeps.trans ⟨hregisters, [], by rw [hlog, List.append_nil], nofun⟩

theorem jump (hkeeps : start.KeepsBut parts machine) (address : Word) :
    start.KeepsBut (parts ++ [.programCounter]) (machine.jump address) :=
  hkeeps.changed (machine.registers.changedIn_programCounter address) rfl

/-- Where an effect is conditional, the parts are those of the way taken. -/
theorem ite {taken skipped : Machine} (condition : Bool) {first second : List Part}
    (htaken : start.KeepsBut first taken) (hskipped : start.KeepsBut second skipped) :
    start.KeepsBut (if condition then first else second)
      (if condition then taken else skipped) := by
  cases condition with
  | true => exact htaken
  | false => exact hskipped

/-! ### Events -/

theorem emit (hkeeps : start.KeepsBut parts machine) {event : Event}
    (hevent : event.isSkip = false) : start.KeepsBut parts (machine.emit event) := by
  have hemitted : machine.KeepsBut [] (machine.emit event) := by
    refine ⟨.refl _, [event], Array.toList_push, fun other hother => ?_⟩
    rw [List.mem_singleton.1 hother]
    exact hevent
  have hnext := hkeeps.trans hemitted
  rw [List.append_nil] at hnext
  exact hnext

theorem report (hkeeps : start.KeepsBut parts machine) {fault : Option Fault}
    (hfault : ∀ reported ∈ fault, (Event.fault reported).isSkip = false) :
    start.KeepsBut parts (machine.report fault) := by
  cases fault with
  | none => exact hkeeps
  | some fault => exact hkeeps.emit (hfault fault rfl)

theorem write (hkeeps : start.KeepsBut parts machine) (address : Word) (value : Byte) :
    start.KeepsBut parts (machine.write address value) :=
  (hkeeps.emit rfl).elsewhere rfl rfl

theorem writeWord (hkeeps : start.KeepsBut parts machine) (address value : Word) :
    start.KeepsBut parts (machine.writeWord address value) :=
  (hkeeps.write _ _).write _ _

theorem receive (hkeeps : start.KeepsBut parts machine) (device : Word) :
    start.KeepsBut parts (machine.receive device).2 :=
  (hkeeps.emit rfl).elsewhere rfl rfl

theorem send (hkeeps : start.KeepsBut parts machine) (device : Word) (value : Byte) :
    start.KeepsBut parts (machine.send device value) :=
  hkeeps.emit rfl

/-! ### The stack -/

theorem lowerStack (hkeeps : start.KeepsBut parts machine) :
    start.KeepsBut (parts ++ [.stackPointer]) machine.lowerStack := by
  have hreported := hkeeps.report (machine.window.isSkip_decrement machine.registers.sp)
  exact hreported.changed (Registers.changedIn_stackPointer _ _) rfl

theorem raiseStack (hkeeps : start.KeepsBut parts machine) :
    start.KeepsBut (parts ++ [.stackPointer]) machine.raiseStack := by
  have hreported := hkeeps.report (machine.window.isSkip_increment machine.registers.sp)
  exact hreported.changed (Registers.changedIn_stackPointer _ _) rfl

theorem push (hkeeps : start.KeepsBut parts machine) (value : Word) :
    start.KeepsBut (parts ++ [.stackPointer]) (machine.push value) :=
  ((hkeeps.lowerStack.write _ _).lowerStack.write _ _).again

theorem pop (hkeeps : start.KeepsBut parts machine) :
    start.KeepsBut (parts ++ [.stackPointer]) machine.pop.2 :=
  hkeeps.raiseStack.raiseStack.again

theorem call (hkeeps : start.KeepsBut parts machine) (address : Word) :
    start.KeepsBut (parts ++ [.stackPointer] ++ [.programCounter]) (machine.call address) :=
  (hkeeps.push _).jump address

theorem ret (hkeeps : start.KeepsBut parts machine) :
    start.KeepsBut (parts ++ [.stackPointer] ++ [.programCounter]) machine.ret :=
  hkeeps.pop.jump _

end KeepsBut

end Machine

/-! ## Instructions -/

/-- The parts that putting a byte at a place changes. -/
def Place.parts : Place → List Part
  | .reg register => register.parts
  | .cell _ => []

theorem Operand.parts_place (operand : Operand) (machine : Machine) (address : Word) :
    (operand.place machine address).parts = operand.parts := by
  cases operand <;> rfl

namespace Machine

variable {start machine : Machine} {parts : List Part}

namespace KeepsBut

theorem put (hkeeps : start.KeepsBut parts machine) (place : Place) (value : Byte) :
    start.KeepsBut (parts ++ place.parts) (machine.put place value) := by
  cases place with
  | reg register =>
      exact hkeeps.changed (machine.registers.changedIn_setByte register value) rfl
  | cell address =>
      rw [Place.parts, List.append_nil]
      exact hkeeps.write address value

theorem edit (hkeeps : start.KeepsBut parts machine) (change : Edit) (place : Place) :
    start.KeepsBut (parts ++ change.parts ++ place.parts) (machine.edit change place).2 := by
  have hflagged : start.KeepsBut (parts ++ change.parts)
      { machine with registers := (machine.registers.edit change (machine.get place)).2 } :=
    hkeeps.changed (machine.registers.changedIn_edit change _) rfl
  exact hflagged.put place _

theorem branch (hkeeps : start.KeepsBut parts (machine.past 1)) (cost : BranchCost)
    (taken : Bool) :
    start.KeepsBut (if taken then parts ++ [.programCounter] else parts)
      (machine.branch cost taken) :=
  (ite taken (hkeeps.jump _) hkeeps).spendBranch cost taken

end KeepsBut

theorem past_past (machine : Machine) (first second : Nat) :
    (machine.past first).past second = machine.past (first + second) := by
  simp only [past, moved, Memory.slice_add, BitVec.ofNat_add, BitVec.add_assoc,
    OperandBytes.recordAll_append]

theorem blockRound_fst (machine : Machine) (op : BlockOp) (direction : Direction) :
    (machine.blockRound op direction).1 = machine.blockGoesOn op := by
  cases op with
  | load | compare => rfl
  | input | output =>
      show (machine.registers.countByte.getByte .b != 0) = _
      rw [getByte_b_countByte]
      rfl

/-- The registers of a round besides the flags are in no part. -/
theorem blockRound_keepsBut (machine : Machine) (op : BlockOp) (direction : Direction) :
    machine.KeepsBut op.parts (machine.blockRound op direction).2 := by
  have hstart := KeepsBut.refl machine
  cases op with
  | load =>
      exact ⟨machine.registers.changedIn_of_carry rfl, (hstart.write machine.registers.de _).log⟩
  | compare => exact ⟨machine.registers.changedIn_of_carry rfl, hstart.log⟩
  | input =>
      exact ⟨machine.registers.changedIn_bank _,
        ((hstart.receive machine.registers.bc).write machine.registers.hl _).log⟩
  | output =>
      exact ⟨machine.registers.changedIn_bank _,
        (hstart.send machine.registers.countByte.bc _).log⟩

/-- Every instruction passes its operand bytes and changes the parts that it is said to change. -/
theorem execute_keepsBut (machine : Machine) (instruction : Instruction) :
    (machine.past instruction.operandCount).KeepsBut (instruction.changes machine)
      (machine.execute instruction) := by
  have hstart : (machine.past 0).KeepsBut [] machine := by
    rw [past_zero]
    exact .refl _
  have hbyte := KeepsBut.refl (machine.past 1)
  have hword := KeepsBut.refl (machine.past 2)
  cases instruction with
  | noOperation => exact hstart
  | halt =>
      have hhalted : (machine.past 0).KeepsBut [] { machine with halted := true } :=
        hstart.elsewhere rfl rfl
      exact hhalted.emit rfl
  | enableInterrupts | disableInterrupts | interruptMode => exact hstart.elsewhere rfl rfl
  -- Loads.
  | load target source =>
      have hpassed : (machine.past (target.operandCount + source.operandCount)).KeepsBut []
          ((machine.past source.operandCount).past target.operandCount) := by
        rw [past_past, Nat.add_comm]
        exact .refl _
      simp only [execute, locate_eq]
      have hput := hpassed.put (target.place (machine.past source.operandCount)
        (machine.past source.operandCount).registers.pc)
      rw [Operand.parts_place] at hput
      exact hput _
  | loadByte target =>
      have hpassed : (machine.past (target.operandCount + 1)).KeepsBut []
          ((machine.past target.operandCount).past 1) := by
        rw [past_past]
        exact .refl _
      simp only [execute, locate_eq]
      have hput := hpassed.put (target.place machine machine.registers.pc)
      rw [Operand.parts_place] at hput
      exact hput _
  | loadThrough pointer => exact hstart.put (.reg .a) _
  | storeThrough pointer => exact hstart.write _ _
  | loadDirect =>
      simp only [execute, fetchOperandWord_eq]
      exact hword.put (.reg .a) _
  | storeDirect =>
      simp only [execute, fetchOperandWord_eq]
      exact hword.write _ _
  | loadSpecial source => exact hstart.changed (Registers.changedIn_of_carry _ rfl) rfl
  | storeSpecial target =>
      cases target with
      | interruptPage => exact hstart.changed (Registers.changedIn_interruptPage _ _) rfl
      | refresh => exact hstart.changed (Registers.changedIn_refresh _ _) rfl
  | loadWord target | loadWordDirect target =>
      simp only [execute, fetchOperandWord_eq]
      exact hword.changed (Registers.changedIn_setWord _ target _) rfl
  | storeWordDirect source =>
      simp only [execute, fetchOperandWord_eq]
      exact hword.writeWord _ _
  | loadStackPointer source => exact hstart.changed (Registers.changedIn_stackPointer _ _) rfl
  -- The stack.
  | push source => exact hstart.push _
  | pop target => exact hstart.pop.changed (Registers.changedIn_setWord _ target _) rfl
  | exchangeTop register =>
      exact (hstart.writeWord _ _).changed (Registers.changedIn_setWord _ register _) rfl
  -- Exchanges.
  | exchangeAccumulator => exact hstart.changed (Registers.changedIn_exchangeAccumulator _) rfl
  | exchangeBank => exact hstart.changed (Registers.changedIn_exchangeBank _) rfl
  | exchangeData => exact hstart.changed (Registers.changedIn_of_flags _ rfl) rfl
  -- Arithmetic.
  | arithmetic op source =>
      have hlocated := KeepsBut.refl (machine.past source.operandCount)
      simp only [execute, locate_eq]
      exact hlocated.changed (Registers.changedIn_bank _ _) rfl
  | arithmeticByte op => exact hbyte.changed (Registers.changedIn_bank _ _) rfl
  | accumulate op => exact hstart.changed (Registers.changedIn_accumulate _ op) rfl
  | edit change target copy =>
      have hlocated := KeepsBut.refl (machine.past target.operandCount)
      have hedited := hlocated.edit change (target.place machine machine.registers.pc)
      rw [Operand.parts_place] at hedited
      simp only [execute, locate_eq]
      cases copy with
      | none =>
          rw [← List.append_nil ([] ++ change.parts ++ target.parts)] at hedited
          exact hedited
      | some register => exact hedited.put (.reg register) _
  | testBit position source =>
      have hlocated := KeepsBut.refl (machine.past source.operandCount)
      simp only [execute, locate_eq]
      exact hlocated.changed (Registers.changedIn_of_carry _ rfl) rfl
  | rotateDigit rotation =>
      have hrotated : (machine.past 0).KeepsBut [.flags] { machine with
          registers := (machine.registers.rotateDigit rotation
            (machine.read machine.registers.hl)).2 } :=
        hstart.changed (Registers.changedIn_of_carry _ rfl) rfl
      exact hrotated.write _ _
  | arithmeticWord op target source =>
      exact hstart.changed (Registers.changedIn_arithmeticWord _ op target _ _) rfl
  | incrementWord register | decrementWord register =>
      exact hstart.changed (Registers.changedIn_setWord _ register _) rfl
  -- Jumps.
  | jump =>
      simp only [execute, fetchOperandWord_eq]
      exact hword.jump _
  | jumpIf condition =>
      simp only [execute, fetchOperandWord_eq]
      exact .ite _ (hword.jump _) hword
  | jumpRelative => exact hbyte.jump _
  | jumpRelativeIf condition => exact hbyte.branch .relativeJump _
  | jumpCounted =>
      have hcounted : (machine.past 1).KeepsBut [] ((machine.past 1).update Registers.countByte) :=
        hbyte.changed (Registers.changedIn_setByte _ .b _) rfl
      -- The branch looks at the counter after it has been changed.
      have hchanges : Instruction.changes machine .jumpCounted =
          if machine.registers.countByte.getByte .b != 0 then [.programCounter] else [] := by
        rw [getByte_b_countByte]
        rfl
      rw [hchanges]
      exact hcounted.branch .countedJump _
  | jumpTo register => exact hstart.jump _
  -- Calls and returns.
  | call =>
      simp only [execute, fetchOperandWord_eq]
      exact hword.call _
  | callIf condition =>
      simp only [execute, fetchOperandWord_eq]
      exact (KeepsBut.ite _ (hword.call _) hword).spendBranch _ _
  | restart vector => exact hstart.call _
  | ret => exact hstart.ret
  | retIf condition => exact (KeepsBut.ite _ hstart.ret hstart).spendBranch _ _
  | retNonMaskable => exact hstart.ret.updateInterrupts _
  | retMaskable => exact hstart.ret.updateLines _
  -- Devices.
  | inputDirect => exact (hbyte.receive _).put (.reg .a) _
  | outputDirect => exact hbyte.send _ _
  | input target =>
      have hflagged : (machine.past 0).KeepsBut [.flags] machine.receiveFlagged.2 :=
        (hstart.receive machine.registers.bc).changed (Registers.changedIn_of_carry _ rfl) rfl
      cases target with
      | none => exact hflagged
      | some register => exact hflagged.put (.reg register) _
  | output source =>
      cases source with
      | none => exact hstart.send _ _
      | some register => exact hstart.send _ _
  | block op direction repeats =>
      have hround := hstart.trans (machine.blockRound_keepsBut op direction)
      cases repeats with
      | false => exact hround
      | true =>
          have hchanges : Instruction.changes machine (.block op direction true) =
              if (machine.blockRound op direction).1 then op.parts ++ [.programCounter]
              else op.parts := by
            rw [blockRound_fst]
            rfl
          rw [hchanges]
          exact (KeepsBut.ite _ (hround.jump _) hround).spendBranch _ _

end Machine

/-- Which parts an instruction changes does not depend on where it stands. -/
theorem Instruction.changes_moved (instruction : Instruction) (machine : Machine) (pc : Word)
    (r : Byte) (operands : OperandBytes) (cycles : Cycles) :
    instruction.changes (machine.moved pc r operands cycles) = instruction.changes machine := by
  cases instruction with
  | block op direction repeats => cases repeats <;> cases op <;> rfl
  | _ => rfl

namespace Machine

variable {machine : Machine}

theorem perform_keepsBut (machine : Machine) (entry : Entry) :
    (machine.past entry.instruction.operandCount).KeepsBut (entry.instruction.changes machine)
      (machine.perform entry) := by
  unfold perform
  cases entry.cost with
  | fixed cycles =>
      have hexecuted := (machine.spend cycles).execute_keepsBut entry.instruction
      have hsame : entry.instruction.changes (machine.spend cycles) =
          entry.instruction.changes machine :=
        entry.instruction.changes_moved machine _ _ _ (machine.cycles.spend cycles)
      rw [hsame] at hexecuted
      exact ⟨hexecuted.registers, hexecuted.log⟩
  | dynamic => exact machine.execute_keepsBut entry.instruction

/-! ## Steps -/

/-- The step finds bytes that select no instruction. -/
structure Unhandled (machine : Machine) : Prop where
  executes : machine.Executes
  none : machine.memory.entryAt? machine.registers.pc = none

/-- The parts that a step may change, by its kind. -/
inductive StepChanges (machine : Machine) : List Part → Prop
  /-- A request is served. -/
  | enters (henters : machine.EntersInterrupt) :
      StepChanges machine [.stackPointer, .programCounter]
  /-- The processor idles, or it drops a request. -/
  | idle (hexecutes : ¬machine.Executes) : StepChanges machine []
  /-- The bytes at the program counter select no entry. -/
  | unhandled (hunhandled : machine.Unhandled) : StepChanges machine [.programCounter, .refresh]
  /-- The entry that they select is executed. -/
  | executed {entry : Entry} (hexecutes : machine.Executes)
      (hentry : entry ∈ machine.memory.entryAt? machine.registers.pc) :
      StepChanges machine ([.programCounter, .refresh] ++ entry.instruction.changes machine)

/-- Reading a code changes the program counter and counts refreshes. -/
theorem fetchCode_keepsBut (machine : Machine) (count : Nat) :
    machine.KeepsBut [.programCounter, .refresh] (machine.begun.fetchCode.2.past count) := by
  obtain ⟨r, operands, hmoved⟩ := machine.begun.fetchCode_moved
  refine ⟨?_, [], ?_, nofun⟩
  · rw [hmoved]
    exact (machine.registers.changedIn_programCounter _).trans
      (Registers.changedIn_refresh _ _)
  · rw [List.append_nil]
    exact congrArg Array.toList log_begun_fetchCode

/-- A step that executes an entry passes its code and its operands, and then changes the parts of
its instruction. -/
theorem Executes.keepsBut (hexecutes : machine.Executes) {entry : Entry}
    (hentry : entry ∈ machine.memory.entryAt? machine.registers.pc) :
    (machine.begun.fetchCode.2.past entry.instruction.operandCount).KeepsBut
      (entry.instruction.changes machine) machine.step := by
  have hperformed := machine.begun.fetchCode.2.perform_keepsBut entry
  obtain ⟨r, operands, hmoved⟩ := machine.begun.fetchCode_moved
  -- The entry is performed behind its code, but what it changes is settled before the code is read.
  have hchanges : entry.instruction.changes machine.begun.fetchCode.2 =
      entry.instruction.changes machine := by
    have hbegun : machine.begun =
        machine.moved machine.registers.pc machine.registers.r {} machine.cycles.begin := rfl
    rw [hmoved, Instruction.changes_moved, hbegun, Instruction.changes_moved]
  rw [hchanges] at hperformed
  rw [hexecutes.step_eq_elim, Option.mem_def.1 hentry, Option.elim_some]
  exact hperformed.emit rfl

/-- A call for a request changes what calls change. -/
theorem keepsBut_of_call {prepared : Machine} {notice : Notice} {address : Word}
    (hstep : machine.step = (prepared.call address).spend interruptCost)
    (hlog : prepared.log = machine.log.push (.notice notice))
    (hregisters : prepared.registers = machine.registers) :
    machine.KeepsBut [.stackPointer, .programCounter] machine.step := by
  have hnotice : machine.KeepsBut [] (machine.emit (.notice notice)) :=
    (KeepsBut.refl machine).emit rfl
  rw [hstep]
  exact ((hnotice.elsewhere hregisters hlog).call address).spend _

/-- A step reports no bytes as selecting no instruction, unless it finds such bytes. -/
theorem step_keepsBut (hhandled : ¬machine.Unhandled) :
    ∃ parts, machine.StepChanges parts ∧ machine.KeepsBut parts machine.step := by
  cases machine.stepKind with
  | nonMaskable hraised =>
      have hstep := step_nonMaskable hraised
      exact ⟨_, .enters (.inl hraised), keepsBut_of_call hstep rfl rfl⟩
  | served hdue hmode =>
      have hstep := step_maskable_of_served hdue hmode
      exact ⟨_, .enters (.inr ⟨hdue, hmode⟩), keepsBut_of_call hstep rfl rfl⟩
  | dropped hdue hmode =>
      refine ⟨[], .idle hdue.not_executes, ?_⟩
      rw [step_dropped hdue hmode]
      exact ((KeepsBut.refl machine).emit rfl).elsewhere rfl rfl
  | idle hnothing hhalted =>
      refine ⟨[], .idle fun hexecutes => ?_, ?_⟩
      · exact Bool.false_ne_true (hexecutes.running.symm.trans hhalted)
      · rw [step_idle hnothing hhalted]
        exact .quiet rfl rfl
  | executes hexecutes =>
      cases hentry : machine.memory.entryAt? machine.registers.pc with
      | none => exact absurd ⟨hexecutes, hentry⟩ hhandled
      | some entry =>
          exact ⟨_, .executed hexecutes hentry,
            (machine.fetchCode_keepsBut _).trans (hexecutes.keepsBut hentry)⟩

/-- Every step changes the parts of its kind at most. -/
theorem step_changedIn (machine : Machine) :
    ∃ parts, machine.StepChanges parts ∧
      machine.registers.ChangedIn parts machine.step.registers := by
  by_cases hunhandled : machine.Unhandled
  · refine ⟨_, .unhandled hunhandled, ?_⟩
    have hfetched := (machine.fetchCode_keepsBut 0).registers
    rw [past_zero] at hfetched
    rw [hunhandled.executes.step_eq_elim, hunhandled.none]
    exact hfetched
  · obtain ⟨parts, hchanges, hkeeps⟩ := step_keepsBut hunhandled
    exact ⟨parts, hchanges, hkeeps.registers⟩

end Machine

end Z80
