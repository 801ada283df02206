import Z80.Machine.Execute

/-!
# Reading operands and acting quietly

An instruction reads its operand bytes before it writes to memory or goes on elsewhere, so that each
byte is the one that stood behind the last when the instruction began (`Machine.Reading`). What it
does after that neither reads on nor spends cycles, and records no trace (`Machine.HasRead`). Each
operation of the machine has one lemma for that.
-/

namespace Z80

/-! ## The traces that a log gains -/

/-- The trace that an event records, if it records one. -/
def Event.executed? : Event → Option Trace
  | .executed trace => some trace
  | _ => none

/-- A log goes on from another one with events that record the given traces. -/
def ExtendsBy (before after : Array Event) (traces : List Trace) : Prop :=
  ∃ events, after.toList = before.toList ++ events ∧ events.filterMap Event.executed? = traces

namespace ExtendsBy

theorem refl (log : Array Event) : ExtendsBy log log [] :=
  ⟨[], (List.append_nil _).symm, rfl⟩

theorem push {before after : Array Event} {traces : List Trace}
    (hextends : ExtendsBy before after traces) (event : Event) :
    ExtendsBy before (after.push event) (traces ++ event.executed?.toList) := by
  obtain ⟨events, hafter, htraces⟩ := hextends
  refine ⟨events ++ [event], ?_, ?_⟩
  · rw [Array.toList_push, hafter, List.append_assoc]
  · rw [List.filterMap_append, htraces]
    cases event <;> rfl

theorem trans {before between after : Array Event} {first second : List Trace}
    (hfirst : ExtendsBy before between first) (hsecond : ExtendsBy between after second) :
    ExtendsBy before after (first ++ second) := by
  obtain ⟨early, hbetween, rfl⟩ := hfirst
  obtain ⟨late, hafter, rfl⟩ := hsecond
  refine ⟨early ++ late, ?_, List.filterMap_append⟩
  rw [hafter, hbetween, List.append_assoc]

/-- The traces that a log gains are all that it gains. -/
theorem unique {before after : Array Event} {first second : List Trace}
    (hfirst : ExtendsBy before after first) (hsecond : ExtendsBy before after second) :
    first = second := by
  obtain ⟨events, hafter, rfl⟩ := hfirst
  obtain ⟨others, hothers, rfl⟩ := hsecond
  rw [List.append_cancel_left (hafter.symm.trans hothers)]

end ExtendsBy

namespace Machine

/-- Since a starting point, the machine has read so many operand bytes. It has spent no cycles and
recorded no trace, whatever else it did. -/
structure HasRead (start : Machine) (count : Nat) (machine : Machine) : Prop where
  operands : machine.operands =
    start.operands.recordAll (start.memory.slice start.registers.pc count)
  cycles : machine.cycles = start.cycles
  log : ExtendsBy start.log machine.log []

/-- Since a starting point, the machine has done nothing that matters to its next reads but read so
many operand bytes. -/
structure Reading (start : Machine) (count : Nat) (machine : Machine) : Prop
    extends HasRead start count machine where
  memory : machine.memory = start.memory
  pc : machine.registers.pc = start.registers.pc + BitVec.ofNat 16 count

variable {start machine : Machine} {count : Nat}

/-! ## Reading -/

namespace Reading

theorem refl (machine : Machine) : machine.Reading 0 machine where
  operands := rfl
  cycles := rfl
  log := .refl _
  memory := rfl
  pc := (BitVec.add_zero _).symm

theorem fetchOperand (hreading : start.Reading count machine) :
    start.Reading (count + 1) machine.fetchOperand.2 where
  operands := by
    have hbyte : machine.read machine.registers.pc =
        start.memory.read (start.registers.pc + BitVec.ofNat 16 count) := by
      rw [read, hreading.memory, hreading.pc]
    calc machine.operands.record (machine.read machine.registers.pc)
      _ = (start.operands.recordAll (start.memory.slice start.registers.pc count)).recordAll
            [start.memory.read (start.registers.pc + BitVec.ofNat 16 count)] := by
          rw [hreading.operands, hbyte]
          rfl
      _ = start.operands.recordAll (start.memory.slice start.registers.pc (count + 1)) := by
          rw [← OperandBytes.recordAll_append, Memory.slice_add]
          rfl
  cycles := hreading.cycles
  log := hreading.log
  memory := hreading.memory
  pc := by
    calc machine.registers.pc + 1
      _ = start.registers.pc + (BitVec.ofNat 16 count + 1) := by rw [hreading.pc, BitVec.add_assoc]
      _ = start.registers.pc + BitVec.ofNat 16 (count + 1) := by rw [BitVec.ofNat_add]; rfl

theorem fetchOperandWord (hreading : start.Reading count machine) :
    start.Reading (count + 2) machine.fetchOperandWord.2 :=
  hreading.fetchOperand.fetchOperand

theorem locate (hreading : start.Reading count machine) (operand : Operand) :
    start.Reading (count + operand.operandCount) (machine.locate operand).2 := by
  cases operand with
  | displaced index => exact hreading.fetchOperand
  | reg | indirect | offset => exact hreading

/-- A change of registers that leaves the program counter alone does not disturb the reading. -/
theorem update (hreading : start.Reading count machine) {change : Registers → Registers}
    (hpc : (change machine.registers).pc = machine.registers.pc) :
    start.Reading count (machine.update change) where
  operands := hreading.operands
  cycles := hreading.cycles
  log := hreading.log
  memory := hreading.memory
  pc := hpc.trans hreading.pc

end Reading

/-! ## Acting quietly -/

namespace HasRead

theorem emit (hread : start.HasRead count machine) {event : Event}
    (hevent : event.executed? = none) : start.HasRead count (machine.emit event) where
  operands := hread.operands
  cycles := hread.cycles
  log := by
    have hlog := hread.log.push event
    rw [hevent] at hlog
    exact hlog

theorem report (hread : start.HasRead count machine) (fault : Option Fault) :
    start.HasRead count (machine.report fault) := by
  cases fault with
  | none => exact hread
  | some fault => exact hread.emit rfl

/-- Changes elsewhere in the machine do not matter. -/
theorem elsewhere (hread : start.HasRead count machine) {next : Machine}
    (hoperands : next.operands = machine.operands) (hcycles : next.cycles = machine.cycles)
    (hlog : next.log = machine.log) : start.HasRead count next where
  operands := hoperands.trans hread.operands
  cycles := hcycles.trans hread.cycles
  log := hlog ▸ hread.log

/-- Where an effect is conditional, both ways are to be quiet. -/
theorem ite {taken skipped : Machine} (condition : Bool)
    (htaken : start.HasRead count taken) (hskipped : start.HasRead count skipped) :
    start.HasRead count (if condition then taken else skipped) := by
  cases condition with
  | true => exact htaken
  | false => exact hskipped

theorem update (hread : start.HasRead count machine) (change : Registers → Registers) :
    start.HasRead count (machine.update change) :=
  hread.elsewhere rfl rfl rfl

theorem updateLines (hread : start.HasRead count machine) (change : Lines → Lines) :
    start.HasRead count (machine.updateLines change) :=
  hread.elsewhere rfl rfl rfl

theorem updateInterrupts (hread : start.HasRead count machine)
    (change : Interrupts → Interrupts) : start.HasRead count (machine.updateInterrupts change) :=
  hread.elsewhere rfl rfl rfl

theorem jump (hread : start.HasRead count machine) (address : Word) :
    start.HasRead count (machine.jump address) :=
  hread.elsewhere rfl rfl rfl

theorem write (hread : start.HasRead count machine) (address : Word) (value : Byte) :
    start.HasRead count (machine.write address value) :=
  ⟨hread.operands, hread.cycles, hread.log.push _⟩

theorem writeWord (hread : start.HasRead count machine) (address value : Word) :
    start.HasRead count (machine.writeWord address value) :=
  (hread.write _ _).write _ _

theorem receive (hread : start.HasRead count machine) (device : Word) :
    start.HasRead count (machine.receive device).2 :=
  ⟨hread.operands, hread.cycles, hread.log.push _⟩

theorem send (hread : start.HasRead count machine) (device : Word) (value : Byte) :
    start.HasRead count (machine.send device value) :=
  hread.emit rfl

theorem lowerStack (hread : start.HasRead count machine) :
    start.HasRead count machine.lowerStack := by
  unfold Machine.lowerStack
  exact (hread.report _).elsewhere rfl rfl rfl

theorem raiseStack (hread : start.HasRead count machine) :
    start.HasRead count machine.raiseStack := by
  unfold Machine.raiseStack
  exact (hread.report _).elsewhere rfl rfl rfl

theorem pushByte (hread : start.HasRead count machine) (value : Byte) :
    start.HasRead count (machine.pushByte value) :=
  hread.lowerStack.write _ _

theorem push (hread : start.HasRead count machine) (value : Word) :
    start.HasRead count (machine.push value) :=
  (hread.pushByte _).pushByte _

theorem pop (hread : start.HasRead count machine) : start.HasRead count machine.pop.2 :=
  hread.raiseStack.raiseStack

theorem call (hread : start.HasRead count machine) (address : Word) :
    start.HasRead count (machine.call address) :=
  (hread.push _).jump _

theorem ret (hread : start.HasRead count machine) : start.HasRead count machine.ret :=
  hread.pop.jump _

theorem put (hread : start.HasRead count machine) (place : Place) (value : Byte) :
    start.HasRead count (machine.put place value) := by
  cases place with
  | reg register => exact hread.elsewhere rfl rfl rfl
  | cell address => exact hread.write _ _

theorem edit (hread : start.HasRead count machine) (edit : Edit) (place : Place) :
    start.HasRead count (machine.edit edit place).2 := by
  have hflagged := hread.update fun registers => (registers.edit edit (machine.get place)).2
  exact hflagged.put _ _

theorem receiveFlagged (hread : start.HasRead count machine) :
    start.HasRead count machine.receiveFlagged.2 :=
  ⟨hread.operands, hread.cycles, hread.log.push _⟩

/-- A round is quiet: it logs at most one exchange with a device and one write to memory. -/
theorem blockRound (hread : start.HasRead count machine) (op : BlockOp) (direction : Direction) :
    start.HasRead count (machine.blockRound op direction).2 := by
  cases op with
  | load => exact ⟨hread.operands, hread.cycles, hread.log.push _⟩
  | compare => exact ⟨hread.operands, hread.cycles, hread.log⟩
  | input => exact ⟨hread.operands, hread.cycles, (hread.log.push _).push _⟩
  | output => exact ⟨hread.operands, hread.cycles, hread.log.push _⟩

end HasRead

end Machine

end Z80
