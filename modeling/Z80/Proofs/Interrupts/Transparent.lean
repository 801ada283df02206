import Z80.Proofs.Interrupts.Service
import Z80.Proofs.Stack.Room

/-!
# Interrupts that nothing notices

A non-maskable request whose routine returns at once costs two steps: one serves the request and the
next returns. Between the two the stack holds the program counter and `iff2` the gate for maskable
requests, and the return takes both back. So the interrupted program finds its registers, the gate
and its memory as they were, apart from `R` and from the two bytes below the stack pointer
(`servedTransparently`).
-/

namespace Z80

/-- The routine of non-maskable requests begins with a return from it. -/
structure Memory.ReturnsAtOnce (memory : Memory) : Prop where
  lead : memory.read 0x0066 = 0xED
  opcode : memory.read 0x0067 ∈ retNonMaskableOpcodes

namespace Machine

variable {machine : Machine}

/-- With room on the stack, serving a non-maskable request stores the program counter below the
stack pointer. -/
theorem step_nonMaskable_of_room (hraised : machine.devices.lines.nonMaskable = true)
    (hroom : machine.window.RoomBelow machine.registers.sp) :
    machine.step =
      { machine with
        registers := { machine.registers with sp := machine.registers.sp - 2, pc := 0x0066 }
        interrupts := machine.interrupts.suspend
        halted := false
        cycles := machine.cycles.begin.spend 11
        memory := machine.memory.stacked machine.registers.sp machine.registers.pc
        devices := { machine.devices with lines := machine.devices.lines.lowerNonMaskable }
        log := ((machine.log.push (.notice (.nonMaskableServed machine.registers.pc))).push
          (.memoryWrite (machine.registers.sp - 1) (highByte machine.registers.pc))).push
          (.memoryWrite (machine.registers.sp - 2) (lowByte machine.registers.pc)) } := by
  have hstep := step_nonMaskable hraised
  rw [call, push_of_roomBelow (by exact hroom)] at hstep
  rw [hstep]
  rfl

/-- A step at a return from a non-maskable interrupt pops the program counter and puts the gate for
maskable requests back. -/
theorem step_retNonMaskable (hexecutes : machine.Executes)
    (hlead : machine.read machine.registers.pc = 0xED)
    (hopcode : machine.read (machine.registers.pc + 1) ∈ retNonMaskableOpcodes) {sp : Word}
    (hroom : machine.window.RoomBelow sp) (hsp : machine.registers.sp = sp - 2) :
    machine.step =
      { machine with
        registers := { machine.registers with
          sp
          pc := machine.readWord (sp - 2)
          r := (machine.registers.refresh 2).r }
        interrupts := machine.interrupts.restore
        cycles := machine.cycles.begin.spend 14
        operands := {}
        log := machine.step.log } := by
  have hstep := step_extended hexecutes hlead (extendedEntry_retNonMaskable _ hopcode)
  -- The pop works on the machine behind the opcode, whose stack pointer and window are the same.
  have hentered : ((machine.entered 2 2).spend 14).window.RoomBelow sp := hroom
  have hpop := pop_of_roomBelow hentered hsp
  simp only [perform, execute, ret, hpop] at hstep
  rw [hstep]
  rfl

/-- Serving a non-maskable request whose routine returns at once, as one transition. -/
theorem step_step_of_returnsAtOnce (hraised : machine.devices.lines.nonMaskable = true)
    (hroom : machine.window.RoomBelow machine.registers.sp)
    (hroutine : (machine.push machine.registers.pc).memory.ReturnsAtOnce) :
    machine.step.step =
      { machine with
        registers := { machine.registers with r := (machine.registers.refresh 2).r }
        interrupts := { machine.interrupts with iff2 := machine.interrupts.iff1 }
        halted := false
        cycles := machine.step.cycles.begin.spend 14
        operands := {}
        memory := machine.memory.stacked machine.registers.sp machine.registers.pc
        devices := { machine.devices with lines := machine.devices.lines.lowerNonMaskable }
        log := machine.step.step.log } := by
  have hserved := step_nonMaskable_of_room hraised hroom
  rw [push_of_roomBelow hroom] at hroutine
  -- The routine runs with maskable requests held back, so that its first step executes.
  have hexecutes : machine.step.Executes := by
    rw [hserved]
    exact ⟨rfl, rfl, .inl rfl⟩
  have hlead : machine.step.read machine.step.registers.pc = 0xED := by
    rw [hserved]
    exact hroutine.lead
  have hopcode : machine.step.read (machine.step.registers.pc + 1) ∈ retNonMaskableOpcodes := by
    rw [hserved]
    exact hroutine.opcode
  have hwindow : machine.step.window.RoomBelow machine.registers.sp := by
    rw [hserved]
    exact hroom
  have hsp : machine.step.registers.sp = machine.registers.sp - 2 := by rw [hserved]
  have hreturned := step_retNonMaskable hexecutes hlead hopcode hwindow hsp
  have hpc : machine.step.readWord (machine.registers.sp - 2) = machine.registers.pc := by
    rw [hserved]
    exact Memory.readWord_stacked ..
  rw [hpc] at hreturned
  refine hreturned.trans ?_
  rw [hserved]
  rfl

/-! ## What the interrupted program finds -/

/-- A non-maskable request is served and returned from in two steps. In between the machine stands
at the routine and takes no maskable request; afterwards everything is as it was, except for `R`,
`iff2`, the request itself, a halt, and the two bytes below the stack pointer. -/
structure ServedTransparently (machine : Machine) : Prop where
  entered : machine.step.cycles.current = 11
  routine : machine.step.registers.pc = 0x0066
  closed : machine.step.interrupts.iff1 = false
  executes : machine.step.Executes
  returned : machine.step.step.cycles.current = 14
  registers : machine.step.step.registers =
    { machine.registers with r := machine.step.step.registers.r }
  refreshed : machine.step.step.registers.r.setWidth 7 = machine.registers.r.setWidth 7 + 2
  refreshHigh : machine.step.step.registers.r.msb = machine.registers.r.msb
  interrupts : machine.step.step.interrupts =
    { machine.interrupts with iff2 := machine.interrupts.iff1 }
  running : machine.step.step.halted = false
  lines : machine.step.step.devices.lines =
    { maskable := machine.devices.lines.maskable, nonMaskable := false }
  memory : ∀ address, address ≠ machine.registers.sp - 1 → address ≠ machine.registers.sp - 2 →
    machine.step.step.memory.read address = machine.memory.read address

/-- A non-maskable request whose routine returns at once is not noticed by the program that it
interrupts, halted or not, wherever a word fits on its stack. -/
theorem servedTransparently (machine : Machine)
    (hraised : machine.devices.lines.nonMaskable = true)
    (hroom : machine.window.RoomBelow machine.registers.sp)
    (hroutine : (machine.push machine.registers.pc).memory.ReturnsAtOnce) :
    machine.ServedTransparently := by
  have hserved := step_nonMaskable_of_room hraised hroom
  have hreturned := step_step_of_returnsAtOnce hraised hroom hroutine
  have hr : machine.step.step.registers.r = (machine.registers.refresh 2).r := by rw [hreturned]
  exact
    { entered := by rw [hserved]; rfl
      routine := by rw [hserved]
      closed := by rw [hserved]; rfl
      executes := by rw [hserved]; exact ⟨rfl, rfl, .inl rfl⟩
      returned := by rw [hreturned]; rfl
      registers := by rw [hr, hreturned]
      refreshed := by rw [hr, Registers.setWidth_r_refresh]; rfl
      refreshHigh := by rw [hr, Registers.msb_r_refresh]
      interrupts := by rw [hreturned]
      running := by rw [hreturned]
      lines := by rw [hreturned]; rfl
      memory := fun address hhigh hlow => by
        rw [hreturned]
        exact Memory.read_stacked_other _ hhigh hlow }

/-- A request that wakes a halted processor with an empty stack at the end of the address space,
while a maskable request waits. -/
theorem servedTransparently_halted :
    let machine : Machine :=
      { registers := { a := 0x12, hl := 0x3456, sp := 0, pc := 0x4001, r := 0xFF }
        interrupts := { iff1 := true, mode := .one }
        halted := true
        memory := Memory.blank.load 0x0066 [0xED, 0x7D]
        window := { lowest := 0xFFFE, highest := 0x10000 }
        devices := { lines := { maskable := true, nonMaskable := true } } }
    machine.devices.lines.nonMaskable = true ∧
      machine.window.RoomBelow machine.registers.sp ∧
      (machine.push machine.registers.pc).memory.ReturnsAtOnce ∧
      machine.ServedTransparently := by
  intro machine
  have hroom : machine.window.RoomBelow machine.registers.sp := by decide
  have hroutine : (machine.push machine.registers.pc).memory.ReturnsAtOnce :=
    ⟨by decide +kernel, by decide +kernel⟩
  exact ⟨rfl, hroom, hroutine, servedTransparently machine rfl hroom hroutine⟩

end Machine

end Z80
