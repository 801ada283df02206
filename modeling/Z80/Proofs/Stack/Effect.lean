import Z80.Machine.Stack
import Z80.Proofs.Faults
import Z80.Proofs.Stack.Position

/-!
# What the stack operations change

`push_eq` and `pop_eq` give the machine after a push and a pop in full: the stack pointer takes two
steps through the window, a push writes two bytes, and the log grows. Nothing else changes. With
room for a word the steps are plain counting (`push_of_room`, `pop_of_room`).
-/

namespace Z80.Machine

/-- A machine in its blank state, with a stack pointer in a stack window. -/
def withStack (lowest highest : Nat) (sp : Word) : Machine where
  registers := { sp }
  window := { lowest, highest }

theorem lowerStack_eq (machine : Machine) :
    machine.lowerStack =
      { machine with
        registers := { machine.registers with
          sp := (machine.window.decrement machine.registers.sp).1 }
        log := reported machine.log (machine.window.decrement machine.registers.sp).2 } := by
  unfold lowerStack
  generalize machine.window.decrement machine.registers.sp = step
  obtain ⟨sp, _ | fault⟩ := step <;> rfl

theorem raiseStack_eq (machine : Machine) :
    machine.raiseStack =
      { machine with
        registers := { machine.registers with
          sp := (machine.window.increment machine.registers.sp).1 }
        log := reported machine.log (machine.window.increment machine.registers.sp).2 } := by
  unfold raiseStack
  generalize machine.window.increment machine.registers.sp = step
  obtain ⟨sp, _ | fault⟩ := step <;> rfl

/-- A push writes the high byte one step down and the low byte another step down. -/
theorem push_eq (machine : Machine) (value : Word) :
    machine.push value =
      let first := machine.window.decrement machine.registers.sp
      let second := machine.window.decrement first.1
      { machine with
        registers := { machine.registers with sp := second.1 }
        memory := (machine.memory.write first.1 (highByte value)).write second.1 (lowByte value)
        log := (reported ((reported machine.log first.2).push
          (.memoryWrite first.1 (highByte value))) second.2).push
          (.memoryWrite second.1 (lowByte value)) } := by
  simp only [push, pushByte, lowerStack_eq]
  rfl

/-- What a push adds to the log. -/
def pushEvents (machine : Machine) (value : Word) : List Event :=
  let first := machine.window.decrement machine.registers.sp
  let second := machine.window.decrement first.1
  (first.2.map Event.fault).toList ++ [.memoryWrite first.1 (highByte value)] ++
    (second.2.map Event.fault).toList ++ [.memoryWrite second.1 (lowByte value)]

theorem toList_log_push (machine : Machine) (value : Word) :
    (machine.push value).log.toList = machine.log.toList ++ machine.pushEvents value := by
  simp [push_eq, pushEvents, toList_reported]

theorem toList_log_call (machine : Machine) (address : Word) :
    (machine.call address).log.toList =
      machine.log.toList ++ machine.pushEvents machine.registers.pc :=
  machine.toList_log_push machine.registers.pc

/-- A pop reads the low byte at the stack pointer and the high byte one step up. -/
theorem pop_eq (machine : Machine) :
    machine.pop =
      let first := machine.window.increment machine.registers.sp
      let second := machine.window.increment first.1
      (joinBytes (machine.memory.read first.1) (machine.memory.read machine.registers.sp),
        { machine with
          registers := { machine.registers with sp := second.1 }
          log := reported (reported machine.log first.2) second.2 }) := by
  simp only [pop, popByte, raiseStack_eq]
  rfl

/-- A push reports what its two steps down report. -/
theorem faults_push (machine : Machine) (value : Word) :
    (machine.push value).faults =
      machine.faults ++ (machine.window.decrement machine.registers.sp).2.toList ++
        (machine.window.decrement (machine.window.decrement machine.registers.sp).1).2.toList := by
  simp [push_eq, faults, List.filterMap_cons, Event.fault?]

/-- A pop reports what its two steps up report. -/
theorem faults_pop (machine : Machine) :
    machine.pop.2.faults =
      machine.faults ++ (machine.window.increment machine.registers.sp).2.toList ++
        (machine.window.increment (machine.window.increment machine.registers.sp).1).2.toList := by
  simp [pop_eq, faults]

/-! ## Words that fit -/

variable {machine : Machine} {position : Nat}

theorem readWord_ofNat (machine : Machine) (position : Nat) :
    machine.readWord (BitVec.ofNat 16 position) =
      joinBytes (machine.memory.read (BitVec.ofNat 16 (position + 1)))
        (machine.memory.read (BitVec.ofNat 16 position)) := by
  rw [BitVec.ofNat_add]
  rfl

/-- With room for a word below it, the stack pointer moves down by two. -/
theorem push_of_room (hend : machine.window.highest ≤ 0x10000)
    (hsp : machine.registers.sp = BitVec.ofNat 16 position)
    (hlow : machine.window.lowest + 2 ≤ position) (hhigh : position ≤ machine.window.highest)
    (value : Word) :
    machine.push value =
      { machine with
        registers := { machine.registers with sp := BitVec.ofNat 16 (position - 2) }
        memory := (machine.memory.write (BitVec.ofNat 16 (position - 1)) (highByte value)).write
          (BitVec.ofNat 16 (position - 2)) (lowByte value)
        log := (machine.log.push
          (.memoryWrite (BitVec.ofNat 16 (position - 1)) (highByte value))).push
          (.memoryWrite (BitVec.ofNat 16 (position - 2)) (lowByte value)) } := by
  have hfirst := Window.decrement_ofNat hend (by omega : machine.window.lowest < position) hhigh
  have hsecond := Window.decrement_ofNat hend
    (by omega : machine.window.lowest < position - 1) (by omega)
  simp only [push_eq, hsp, hfirst, hsecond]
  rfl

/-- With a word above it, the stack pointer moves up by two, and that word is popped. -/
theorem pop_of_room (hend : machine.window.highest ≤ 0x10000)
    (hsp : machine.registers.sp = BitVec.ofNat 16 position)
    (hhigh : position + 2 ≤ machine.window.highest) :
    machine.pop =
      (machine.readWord (BitVec.ofNat 16 position),
        { machine with
          registers := { machine.registers with sp := BitVec.ofNat 16 (position + 2) } }) := by
  have hfirst := Window.increment_ofNat hend (by omega : position < machine.window.highest)
  have hsecond := Window.increment_ofNat hend (by omega : position + 1 < machine.window.highest)
  simp only [pop_eq, hsp, hfirst, hsecond, readWord_ofNat]
  rfl

/-- With room for a word below it, a push leaves the word at the new stack pointer. -/
theorem readWord_push_of_room (hend : machine.window.highest ≤ 0x10000)
    (hsp : machine.registers.sp = BitVec.ofNat 16 (position + 2))
    (hlow : machine.window.lowest ≤ position) (hhigh : position + 2 ≤ machine.window.highest)
    (value : Word) : (machine.push value).readWord (BitVec.ofNat 16 position) = value := by
  have hne : BitVec.ofNat 16 position ≠ BitVec.ofNat 16 (position + 1) := by bv_omega
  rw [readWord_ofNat, push_of_room hend hsp (by omega) hhigh]
  show joinBytes (((machine.memory.write (BitVec.ofNat 16 (position + 1)) (highByte value)).write
    (BitVec.ofNat 16 position) (lowByte value)).read (BitVec.ofNat 16 (position + 1)))
    (((machine.memory.write (BitVec.ofNat 16 (position + 1)) (highByte value)).write
      (BitVec.ofNat 16 position) (lowByte value)).read (BitVec.ofNat 16 position)) = value
  rw [Memory.read_write_same, Memory.read_write_other _ _ hne, Memory.read_write_same,
    joinBytes_highByte_lowByte]

end Z80.Machine
