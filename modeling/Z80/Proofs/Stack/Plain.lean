import Z80.Proofs.Stack.RoundTrip
import Z80.Proofs.Stack.Room

/-!
# A stack without bounds

Where the whole address space may be used as the stack, the window has no effect left: the stack
pointer counts around as a word, nothing is reported, and pushing and popping undo each other from
every stack pointer (`plainStack`). It does not matter how far beyond the end of the address space
the window is said to reach.
-/

namespace Z80.Machine

variable {machine : Machine}

section

variable (hlow : machine.window.lowest = 0) (hhigh : 0x10000 ≤ machine.window.highest)

include hlow hhigh

theorem push_of_full (value : Word) :
    machine.push value =
      { machine with
        registers := { machine.registers with sp := machine.registers.sp - 2 }
        memory := machine.memory.stacked machine.registers.sp value
        log := (machine.log.push
          (.memoryWrite (machine.registers.sp - 1) (highByte value))).push
          (.memoryWrite (machine.registers.sp - 2) (lowByte value)) } := by
  have hnext : machine.registers.sp - 1 - 1 = machine.registers.sp - 2 := by bv_omega
  have hsecond := Window.decrement_of_full hlow hhigh (machine.registers.sp - 1)
  rw [hnext] at hsecond
  exact push_of_decrement (Window.decrement_of_full hlow hhigh _) hsecond value

theorem faults_push_of_full (value : Word) : (machine.push value).faults = machine.faults := by
  have hdown := Window.decrement_of_full hlow hhigh
  simp [faults_push, hdown]

end

section

variable (hhigh : 0x10000 ≤ machine.window.highest)

include hhigh

theorem pop_of_full :
    machine.pop =
      (machine.readWord machine.registers.sp,
        { machine with
          registers := { machine.registers with sp := machine.registers.sp + 2 } }) := by
  have hnext : machine.registers.sp + 1 + 1 = machine.registers.sp + 2 := by bv_omega
  have hsecond := Window.increment_of_full hhigh (machine.registers.sp + 1)
  rw [hnext] at hsecond
  exact pop_of_increment (Window.increment_of_full hhigh _) hsecond

theorem faults_pop_of_full : machine.pop.2.faults = machine.faults := by
  have hup := Window.increment_of_full hhigh
  simp [faults_pop, hup]

end

/-- The stack is that of a processor which knows no bounds. All addresses are words, so that they
wrap at the ends of memory. -/
structure PlainStack (machine : Machine) : Prop where
  push : ∀ value, machine.push value =
    { machine with
      registers := { machine.registers with sp := machine.registers.sp - 2 }
      memory := (machine.memory.write (machine.registers.sp - 1) (highByte value)).write
        (machine.registers.sp - 2) (lowByte value)
      log := (machine.log.push
        (.memoryWrite (machine.registers.sp - 1) (highByte value))).push
        (.memoryWrite (machine.registers.sp - 2) (lowByte value)) }
  pop : machine.pop.2 =
    { machine with registers := { machine.registers with sp := machine.registers.sp + 2 } }
  popped : machine.pop.1.toNat =
    (machine.read machine.registers.sp).toNat +
      256 * (machine.read (machine.registers.sp + 1)).toNat
  silent : machine.pop.2.faults = machine.faults ∧
    ∀ value, (machine.push value).faults = machine.faults
  /-- A pop takes back what was pushed. -/
  pop_push : ∀ value, (machine.push value).pop.1 = value ∧
    (machine.push value).pop.2.registers = machine.registers
  /-- A push puts back what was popped. -/
  push_pop : (machine.pop.2.push machine.pop.1).memory = machine.memory ∧
    (machine.pop.2.push machine.pop.1).registers = machine.registers

/-- Where the stack may use all of memory, it is plain, wherever its pointer stands. -/
theorem plainStack (machine : Machine) (hlow : machine.window.lowest = 0)
    (hhigh : 0x10000 ≤ machine.window.highest) : machine.PlainStack where
  push := push_of_full hlow hhigh
  pop := by rw [pop_of_full hhigh]
  popped := by
    rw [pop_of_full hhigh]
    exact toNat_joinBytes _ _
  silent := ⟨faults_pop_of_full hhigh, faults_push_of_full hlow hhigh⟩
  pop_push value := by
    refine ⟨(pop_push_of_full hlow hhigh value).1, ?_⟩
    rw [push_of_full hlow hhigh, pop_of_full]
    · rw [BitVec.sub_add_cancel]
    · exact hhigh
  push_pop := by
    have hback : machine.registers.sp + 2 - 2 = machine.registers.sp := BitVec.add_sub_cancel _ _
    have hstacked := machine.memory.stacked_readWord (machine.registers.sp + 2)
    rw [hback] at hstacked
    rw [pop_of_full hhigh, push_of_full]
    · exact ⟨hstacked, by rw [hback]⟩
    · exact hlow
    · exact hhigh

/-- From address 1 a push stores its low byte at the end of memory. The window reaches as far as a
number of 64 bits can say. -/
theorem plainStack_across_the_end :
    let machine := withStack 0 0xFFFFFFFFFFFFFFFF 1
    machine.window.lowest = 0 ∧ 0x10000 ≤ machine.window.highest ∧ machine.PlainStack ∧
      (machine.push 0xBEEF).read 0 = 0xBE ∧ (machine.push 0xBEEF).read 0xFFFF = 0xEF := by
  have hplain := plainStack (withStack 0 0xFFFFFFFFFFFFFFFF 1) (by decide) (by decide)
  refine ⟨by decide, by decide, hplain, ?_, ?_⟩
  · rw [hplain.push]
    decide +kernel
  · rw [hplain.push]
    decide +kernel

end Z80.Machine
