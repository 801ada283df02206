import Z80.Proofs.Control
import Z80.Proofs.Stack.Effect

/-!
# Steps that serve a request

A step at which a request is due executes no instruction. It enters an interrupt routine, which is
the same for both kinds of request but for the address (`Enters`), or drops a maskable request in
mode two (`step_dropped`). With the steps at which none is due, these are the kinds of steps
(`stepKind`), and `stepControl` lists what each does to the control state.
-/

namespace Z80.Machine

variable {machine : Machine}

/-- The step enters the interrupt routine at an address: it pushes the program counter, reporting
what the push reports, and goes on at the address, with the processor running and maskable requests
held back. -/
structure Enters (machine : Machine) (address : Word) : Prop where
  registers : machine.step.registers =
    { (machine.push machine.registers.pc).registers with pc := address }
  memory : machine.step.memory = (machine.push machine.registers.pc).memory
  faults : machine.step.faults = (machine.push machine.registers.pc).faults
  running : machine.step.halted = false
  closed : machine.step.interrupts.iff1 = false
  cost : machine.step.cycles.current = 11

/-- A call from a machine that differs from another one in its control state, in its cycles and in
notices alone pushes the same word in the same way. -/
theorem enters_of_prepared {prepared : Machine} {address : Word}
    (hstep : machine.step = (prepared.call address).spend interruptCost)
    (hregisters : prepared.registers = machine.registers)
    (hmemory : prepared.memory = machine.memory) (hwindow : prepared.window = machine.window)
    (hfaults : prepared.faults = machine.faults)
    (hcycles : prepared.cycles = machine.cycles.begin) (hrunning : prepared.halted = false)
    (hclosed : prepared.interrupts.iff1 = false) : machine.Enters address := by
  have hpush := prepared.push_eq machine.registers.pc
  rw [hregisters, hmemory, hwindow] at hpush
  have hcalled : machine.step = ((prepared.push machine.registers.pc).jump address).spend
      interruptCost := by rw [hstep, call, hregisters]
  have hcontrol : machine.step.control = prepared.control := by
    rw [hstep, control_spend, control_call]
  rw [control, control, Control.mk.injEq] at hcontrol
  obtain ⟨hsameRunning, hsameInterrupts, _⟩ := hcontrol
  exact
    { registers := by rw [hcalled, hpush, push_eq]; rfl
      memory := by rw [hcalled, hpush, push_eq]; rfl
      faults := by
        have hsame := prepared.faults_push machine.registers.pc
        rw [hregisters, hwindow, hfaults, ← faults_push machine machine.registers.pc] at hsame
        rw [hcalled]
        exact hsame
      running := hsameRunning.trans hrunning
      closed := by rw [hsameInterrupts, hclosed]
      cost := by
        rw [hcalled, hpush, hcycles]
        rfl }

/-! ## Non-maskable requests -/

/-- What the step does besides entering the routine is settled before the call. -/
theorem step_nonMaskable (hraised : machine.devices.lines.nonMaskable = true) :
    machine.step =
      ({ machine with
          cycles := machine.cycles.begin
          devices := { machine.devices with lines := machine.devices.lines.lowerNonMaskable }
          interrupts := machine.interrupts.suspend
          halted := false
          log := machine.log.push (.notice (.nonMaskableServed machine.registers.pc)) }.call
        nonMaskableVector).spend interruptCost := by
  simp only [step, hraised, if_true]
  rfl

/-- A non-maskable request is served whatever else is the case. -/
theorem enters_nonMaskable (hraised : machine.devices.lines.nonMaskable = true) :
    machine.Enters 0x0066 :=
  enters_of_prepared (step_nonMaskable hraised) rfl rfl rfl (by simp [faults, Event.fault?]) rfl rfl
    rfl

theorem control_step_nonMaskable (hraised : machine.devices.lines.nonMaskable = true) :
    machine.step.control =
      { halted := false
        interrupts := machine.interrupts.suspend
        lines := machine.devices.lines.lowerNonMaskable } := by
  rw [step_nonMaskable hraised, control_spend, control_call]
  rfl

/-! ## Maskable requests -/

/-- A maskable request is due: it is let through, and no non-maskable request comes before it. -/
structure MaskableDue (machine : Machine) : Prop where
  noNonMaskable : machine.devices.lines.nonMaskable = false
  enabled : machine.interrupts.iff1 = true
  raised : machine.devices.lines.maskable = true

theorem step_maskable (hdue : machine.MaskableDue) :
    machine.step = { machine with cycles := machine.cycles.begin }.serveMaskable := by
  simp [step, hdue.noNonMaskable, hdue.enabled, hdue.raised]

/-- Outside mode two, the step is such a call too. -/
theorem step_maskable_of_served (hdue : machine.MaskableDue)
    (hmode : machine.interrupts.mode ≠ .two) :
    machine.step =
      ({ machine with
          cycles := machine.cycles.begin
          devices := { machine.devices with lines := machine.devices.lines.lowerMaskable }
          interrupts := machine.interrupts.disable
          halted := false
          log := machine.log.push (.notice
            (.maskableServed machine.registers.pc machine.interrupts.mode)) }.call
        maskableVector).spend interruptCost := by
  rw [step_maskable hdue]
  unfold serveMaskable
  cases hmatch : machine.interrupts.mode with
  | zero => simp only [updateLines, hmatch]; rfl
  | one => simp only [updateLines, hmatch]; rfl
  | two => exact absurd hmatch hmode

theorem enters_maskable (hdue : machine.MaskableDue) (hmode : machine.interrupts.mode ≠ .two) :
    machine.Enters 0x0038 :=
  enters_of_prepared (step_maskable_of_served hdue hmode) rfl rfl rfl
    (by simp [faults, Event.fault?]) rfl rfl rfl

theorem control_step_maskable (hdue : machine.MaskableDue)
    (hmode : machine.interrupts.mode ≠ .two) :
    machine.step.control =
      { halted := false
        interrupts := machine.interrupts.disable
        lines := machine.devices.lines.lowerMaskable } := by
  rw [step_maskable_of_served hdue hmode, control_spend, control_call]
  rfl

/-- In mode two a maskable request is reported and forgotten, and nothing else happens. -/
theorem step_dropped (hdue : machine.MaskableDue) (hmode : machine.interrupts.mode = .two) :
    machine.step =
      { machine with
        devices := { machine.devices with lines := machine.devices.lines.lowerMaskable }
        cycles := machine.cycles.begin.spend 4
        log := machine.log.push (.fault (.requestDropped machine.registers.pc)) } := by
  rw [step_maskable hdue]
  unfold serveMaskable
  simp only [updateLines, hmode]
  rfl

/-! ## Steps at which no request is due -/

/-- No request is due. -/
structure NothingDue (machine : Machine) : Prop where
  noNonMaskable : machine.devices.lines.nonMaskable = false
  noMaskable : machine.interrupts.iff1 = false ∨ machine.devices.lines.maskable = false

theorem Executes.nothingDue (hexecutes : machine.Executes) : machine.NothingDue :=
  ⟨hexecutes.noNonMaskable, hexecutes.noMaskable⟩

theorem MaskableDue.not_nothingDue (hdue : machine.MaskableDue) : ¬machine.NothingDue := by
  rintro ⟨_, hclosed | hlowered⟩
  · exact Bool.false_ne_true (hclosed.symm.trans hdue.enabled)
  · exact Bool.false_ne_true (hlowered.symm.trans hdue.raised)

/-- Serving a request comes before executing an instruction. -/
theorem MaskableDue.not_executes (hdue : machine.MaskableDue) : ¬machine.Executes :=
  fun hexecutes => hdue.not_nothingDue hexecutes.nothingDue

/-- With nothing due, a halted processor idles. -/
theorem step_idle (hnothing : machine.NothingDue) (hhalted : machine.halted = true) :
    machine.step = { machine with cycles := machine.cycles.begin.spend 4 } := by
  obtain ⟨hnonMaskable, hmaskable⟩ := hnothing
  have hclosed : (machine.interrupts.iff1 && machine.devices.lines.maskable) = false := by
    rcases hmaskable with h | h <;> simp [h]
  simp only [step, hnonMaskable, hclosed, hhalted]
  rfl

/-- With nothing due, a processor that is not halted executes an instruction. -/
theorem NothingDue.executes (hnothing : machine.NothingDue) (hrunning : machine.halted = false) :
    machine.Executes :=
  ⟨hrunning, hnothing.noNonMaskable, hnothing.noMaskable⟩

/-- Without a non-maskable request, a maskable one is due or nothing is. -/
theorem nothingDue_of_not_due (hnonMaskable : machine.devices.lines.nonMaskable = false)
    (hdue : ¬machine.MaskableDue) : machine.NothingDue := by
  refine ⟨hnonMaskable, ?_⟩
  cases henabled : machine.interrupts.iff1 with
  | false => exact .inl rfl
  | true =>
      cases hraised : machine.devices.lines.maskable with
      | false => exact .inr rfl
      | true => exact absurd ⟨hnonMaskable, henabled, hraised⟩ hdue

/-! ## The kinds of steps -/

/-- Of the five kinds every step is of one. -/
inductive StepKind (machine : Machine) : Prop
  | nonMaskable (hraised : machine.devices.lines.nonMaskable = true)
  | served (hdue : machine.MaskableDue) (hmode : machine.interrupts.mode ≠ .two)
  | dropped (hdue : machine.MaskableDue) (hmode : machine.interrupts.mode = .two)
  | idle (hnothing : machine.NothingDue) (hhalted : machine.halted = true)
  | executes (hexecutes : machine.Executes)

theorem stepKind (machine : Machine) : machine.StepKind := by
  cases hnonMaskable : machine.devices.lines.nonMaskable with
  | true => exact .nonMaskable hnonMaskable
  | false =>
      by_cases hdue : machine.MaskableDue
      · by_cases hmode : machine.interrupts.mode = .two
        · exact .dropped hdue hmode
        · exact .served hdue hmode
      · have hnothing := nothingDue_of_not_due hnonMaskable hdue
        cases hhalted : machine.halted with
        | true => exact .idle hnothing hhalted
        | false => exact .executes (hnothing.executes hhalted)

/-- What a step does to the control state, by the kind of step. -/
inductive StepControl (machine : Machine) : Control → Prop
  | nonMaskable (hraised : machine.devices.lines.nonMaskable = true) :
      StepControl machine
        { halted := false
          interrupts := machine.interrupts.suspend
          lines := machine.devices.lines.lowerNonMaskable }
  | served (hdue : machine.MaskableDue) (hmode : machine.interrupts.mode ≠ .two) :
      StepControl machine
        { halted := false
          interrupts := machine.interrupts.disable
          lines := machine.devices.lines.lowerMaskable }
  | dropped (hdue : machine.MaskableDue) (hmode : machine.interrupts.mode = .two) :
      StepControl machine
        { machine.control with lines := machine.devices.lines.lowerMaskable }
  | idle (hnothing : machine.NothingDue) (hhalted : machine.halted = true) :
      StepControl machine machine.control
  | unhandled (hexecutes : machine.Executes)
      (hnone : machine.memory.entryAt? machine.registers.pc = none) :
      StepControl machine machine.control
  | executed {entry : Entry} (hexecutes : machine.Executes)
      (hentry : entry ∈ machine.memory.entryAt? machine.registers.pc) :
      StepControl machine (entry.instruction.control machine.control)

theorem Executes.stepControl (hexecutes : machine.Executes) :
    machine.StepControl machine.step.control := by
  rw [hexecutes.control_step]
  cases hentry : machine.memory.entryAt? machine.registers.pc with
  | none => exact .unhandled hexecutes hentry
  | some entry => exact .executed hexecutes hentry

theorem stepControl (machine : Machine) : machine.StepControl machine.step.control := by
  cases machine.stepKind with
  | nonMaskable hraised =>
      rw [control_step_nonMaskable hraised]
      exact .nonMaskable hraised
  | served hdue hmode =>
      rw [control_step_maskable hdue hmode]
      exact .served hdue hmode
  | dropped hdue hmode =>
      rw [step_dropped hdue hmode]
      exact .dropped hdue hmode
  | idle hnothing hhalted =>
      rw [step_idle hnothing hhalted]
      exact .idle hnothing hhalted
  | executes hexecutes => exact hexecutes.stepControl

end Z80.Machine
