import Z80.Code
import Z80.Machine.Execute
import Z80.Proofs.Stack.Room

/-!
# Swapping a register with the top of the stack

`EX (SP),HL` and its forms for the index registers write to the two bytes at the stack pointer
without moving it, so that they never meet the stack window, and they write them in the order in
which a push does not. Where a word stands above the stack pointer inside the window, the outcome is
that of popping the word and pushing the register in its place all the same (`swapsTop`).
-/

namespace Z80

namespace Memory

/-- Two writes to different addresses can be made in either order. -/
theorem write_comm (memory : Memory) {first second : Word} (hne : first ≠ second)
    (left right : Byte) :
    (memory.write first left).write second right =
      (memory.write second right).write first left := by
  refine ext_read fun address => ?_
  simp only [read_write]
  split
  case isTrue hsecond =>
    subst hsecond
    rw [if_neg hne]
  case isFalse => rfl

/-- A word written low byte first stands where a push from behind it would store it. -/
theorem write_write_eq_stacked (memory : Memory) (address value : Word) :
    (memory.write address (lowByte value)).write (address + 1) (highByte value) =
      memory.stacked (address + 2) value := by
  have hlow : address + 2 - 2 = address := by bv_omega
  have hhigh : address + 2 - 1 = address + 1 := by bv_omega
  have hne : address ≠ address + 1 := by bv_omega
  rw [stacked, hlow, hhigh, write_comm memory hne]

end Memory

namespace Window

/-- A word stands above the stack pointer, in the window. -/
def RoomAbove (window : Window) (sp : Word) : Prop :=
  (window.lowest ≤ sp.toNat ∧ sp.toNat + 2 ≤ window.highest ∧ window.highest ≤ 0x10000) ∨
    (window.lowest = 0 ∧ window.highest = 0x10000)

/-- `RoomAbove` is decidable by comparisons of numbers. -/
instance (window : Window) (sp : Word) : Decidable (window.RoomAbove sp) :=
  inferInstanceAs (Decidable ((_ ∧ _) ∨ (_ ∧ _)))

/-- A word above a pointer is a word below the one behind it. -/
theorem RoomAbove.roomBelow {window : Window} {sp : Word} (hroom : window.RoomAbove sp) :
    window.RoomBelow (sp + 2) := by
  rcases hroom with ⟨hlow, hhigh, hend⟩ | hfull
  · have hposition : window.position (sp + 2) = sp.toNat + 2 := by
      have hword : sp + 2 = BitVec.ofNat 16 (sp.toNat + 2) := by bv_omega
      rw [hword, position_ofNat hend hhigh (by omega)]
    exact .inl ⟨by omega, by omega, hend⟩
  · exact .inr hfull

end Window

namespace Registers

variable (registers : Registers) {register : WordRegister}

theorem setWord_setWord (first second : Word) :
    (registers.setWord register first).setWord register second =
      registers.setWord register second := by
  rcases register with ⟨_ | _ | _ | _⟩ | ⟨_ | _⟩ | _ <;> rfl

theorem setWord_getWord : registers.setWord register (registers.getWord register) = registers := by
  rcases register with ⟨_ | _ | _ | _⟩ | ⟨_ | _⟩ | _ <;>
    simp [setWord, getWord, Bank.set, Bank.get, setIndex, index]

theorem sp_setWord (hother : register ≠ .sp) (value : Word) :
    (registers.setWord register value).sp = registers.sp := by
  rcases register with ⟨_ | _ | _ | _⟩ | ⟨_ | _⟩ | _ <;> first | rfl | exact absurd rfl hother

theorem getWord_of_sp (hother : register ≠ .sp) (sp : Word) :
    { registers with sp }.getWord register = registers.getWord register := by
  rcases register with ⟨_ | _ | _ | _⟩ | ⟨_ | _⟩ | _ <;> first | rfl | exact absurd rfl hother

end Registers

/-! ## The exchange as an instruction -/

/-- The exchanges with the top of the stack, each with its register. -/
def swapCodes : List (Code × WordRegister) :=
  [({ page := .unprefixed, opcode := 0xE3 }, .pair .hl),
    ({ page := .indexed .ix, opcode := 0xE3 }, .index .ix),
    ({ page := .indexed .iy, opcode := 0xE3 }, .index .iy)]

theorem entry_swapCodes :
    ∀ swap ∈ swapCodes, swap.2 ≠ .sp ∧
      ∃ entry ∈ Code.entry? swap.1, entry.instruction = .exchangeTop swap.2 := by
  decide +kernel

namespace Machine

/-- Pops a word, pushes a register in its place, and puts the word into the register. -/
def swapTop (machine : Machine) (register : WordRegister) : Machine :=
  let (top, machine) := machine.pop
  (machine.push (machine.registers.getWord register)).update (·.setWord register top)

variable {machine : Machine} {register : WordRegister}

/-- The exchange, whatever the window is. -/
theorem execute_exchangeTop (machine : Machine) (register : WordRegister) :
    machine.execute (.exchangeTop register) =
      { machine with
        registers :=
          machine.registers.setWord register (machine.readWord machine.registers.sp)
        memory := machine.memory.stacked (machine.registers.sp + 2)
          (machine.registers.getWord register)
        log := (machine.log.push (.memoryWrite machine.registers.sp
          (lowByte (machine.registers.getWord register)))).push
          (.memoryWrite (machine.registers.sp + 1)
            (highByte (machine.registers.getWord register))) } := by
  rw [← Memory.write_write_eq_stacked]
  rfl

/-- With a word above the stack pointer, the pop and the push lead to the same state. -/
theorem swapTop_eq (hroom : machine.window.RoomAbove machine.registers.sp)
    (hother : register ≠ .sp) :
    machine.swapTop register =
      { machine with
        registers :=
          machine.registers.setWord register (machine.readWord machine.registers.sp)
        memory := machine.memory.stacked (machine.registers.sp + 2)
          (machine.registers.getWord register)
        log := (machine.log.push (.memoryWrite (machine.registers.sp + 1)
          (highByte (machine.registers.getWord register)))).push
          (.memoryWrite machine.registers.sp
            (lowByte (machine.registers.getWord register))) } := by
  have hback : machine.registers.sp + 2 - 2 = machine.registers.sp := by bv_omega
  have hhigh : machine.registers.sp + 2 - 1 = machine.registers.sp + 1 := by bv_omega
  have hpop := pop_of_roomBelow hroom.roomBelow hback.symm
  rw [hback] at hpop
  unfold swapTop
  rw [hpop]
  dsimp only
  -- The pop has moved the stack pointer to where a word fits below it.
  rw [push_of_roomBelow (by exact hroom.roomBelow)]
  simp only [hback, hhigh, Registers.getWord_of_sp _ hother]
  rfl

/-- From the state that an exchange leaves, another one leads back. -/
theorem exchangeTop_back {next : Machine} (hother : register ≠ .sp)
    (hregisters : next.registers =
      machine.registers.setWord register (machine.readWord machine.registers.sp))
    (hmemory : next.memory = machine.memory.stacked (machine.registers.sp + 2)
      (machine.registers.getWord register)) :
    (next.execute (.exchangeTop register)).registers = machine.registers ∧
      (next.execute (.exchangeTop register)).memory = machine.memory := by
  have hback : machine.registers.sp + 2 - 2 = machine.registers.sp := by bv_omega
  have hsp : next.registers.sp = machine.registers.sp := by
    rw [hregisters, Registers.sp_setWord _ hother]
  have hheld : next.registers.getWord register = machine.readWord machine.registers.sp := by
    rw [hregisters, Registers.getWord_setWord_same]
  have htop : next.readWord machine.registers.sp = machine.registers.getWord register := by
    have hstored := machine.memory.readWord_stacked (machine.registers.sp + 2)
      (machine.registers.getWord register)
    rw [hback] at hstored
    rw [readWord, hmemory, hstored]
  have hrestored := machine.memory.stacked_readWord (machine.registers.sp + 2)
  rw [hback] at hrestored
  rw [execute_exchangeTop, hsp, hheld, htop, hregisters, hmemory]
  refine ⟨?_, ?_⟩
  · show (machine.registers.setWord register _).setWord register _ = machine.registers
    rw [Registers.setWord_setWord, Registers.setWord_getWord]
  · show (machine.memory.stacked _ _).stacked _ _ = machine.memory
    rw [Memory.stacked_stacked]
    exact hrestored

/-! ## The entries -/

/-- Performing an entry with the exchange executes it; the cost shows in the counters only. -/
theorem perform_exchangeTop (machine : Machine) {entry : Entry}
    (hentry : entry.instruction = .exchangeTop register) :
    ∃ cycles, machine.perform entry =
      { machine.execute (.exchangeTop register) with cycles } := by
  unfold perform
  rw [hentry]
  cases entry.cost with
  | fixed cycles => exact ⟨machine.cycles.spend cycles, rfl⟩
  | dynamic => exact ⟨machine.cycles, rfl⟩

/-- The entry does what a pop and a push do. Its cycles are its own, and so is the order in which
the log has its two writes. -/
structure SwapsTop (machine : Machine) (entry : Entry) (register : WordRegister) : Prop where
  state : machine.perform entry =
    { machine.swapTop register with
      cycles := (machine.perform entry).cycles
      log := (machine.perform entry).log }
  faults : (machine.perform entry).faults = (machine.swapTop register).faults
  /-- Done twice, it restores the register and the two bytes. -/
  twice : ((machine.perform entry).perform entry).registers = machine.registers ∧
    ((machine.perform entry).perform entry).memory = machine.memory

/-- With a word above the stack pointer, every exchange with the top of the stack does what a pop
and a push do. -/
theorem swapsTop (machine : Machine)
    (hroom : machine.window.RoomAbove machine.registers.sp) :
    ∀ swap ∈ swapCodes, ∃ entry ∈ Code.entry? swap.1, machine.SwapsTop entry swap.2 := by
  intro swap hswap
  obtain ⟨hother, entry, hentry, hinstruction⟩ := entry_swapCodes swap hswap
  obtain ⟨cycles, hperform⟩ := machine.perform_exchangeTop hinstruction
  obtain ⟨later, htwice⟩ := (machine.perform entry).perform_exchangeTop hinstruction
  have hswapped := swapTop_eq hroom hother
  refine ⟨entry, hentry, ?_, ?_, ?_⟩
  · rw [hperform, hswapped, execute_exchangeTop]
  · rw [hperform, hswapped, execute_exchangeTop]
    simp [Machine.faults, Event.fault?, List.filterMap_cons]
  · rw [htwice]
    exact exchangeTop_back hother (by rw [hperform, execute_exchangeTop])
      (by rw [hperform, execute_exchangeTop])

/-- The last word of memory is swapped with `IY`. The pop moves the stack pointer to the end of the
window, which is zero as a word. -/
theorem swapsTop_at_the_end :
    let machine : Machine :=
      { registers := { iy := 0x1234, sp := 0xFFFE }
        memory := Memory.blank.load 0xFFFE [0xEF, 0xBE]
        window := { lowest := 0xFFFE } }
    machine.window.RoomAbove machine.registers.sp ∧
      (∃ entry ∈ Code.entry? { page := .indexed .iy, opcode := 0xE3 },
        machine.SwapsTop entry (.index .iy)) ∧
      (machine.swapTop (.index .iy)).registers = { iy := 0xBEEF, sp := 0xFFFE } ∧
      (machine.swapTop (.index .iy)).readWord 0xFFFE = 0x1234 := by
  intro machine
  have hroom : machine.window.RoomAbove machine.registers.sp := by decide
  refine ⟨hroom, ?_, by decide +kernel, by decide +kernel⟩
  exact swapsTop machine hroom ({ page := .indexed .iy, opcode := 0xE3 }, .index .iy) (by decide)

end Machine

end Z80
