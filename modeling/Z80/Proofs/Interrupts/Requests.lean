import Z80.Proofs.Interrupts.Raising
import Z80.Proofs.Interrupts.Service

/-!
# Requests are neither lost nor invented

A step answers the request that is due and leaves the other one raised; a step at which none is due
leaves both lines as they are, except that a return from a maskable interrupt lowers that request
(`StepAnswers`). So in a run with devices that raise lines between the steps, the next step serves a
non-maskable request, and a maskable one stays raised until it is answered (`answersRequests`).
-/

namespace Z80.Machine

variable {machine : Machine}

/-! ## One step -/

/-- The step executes a return from a maskable interrupt. -/
structure ExecutesReti (machine : Machine) : Prop extends machine.Executes where
  lead : machine.read machine.registers.pc = 0xED
  opcode : machine.read (machine.registers.pc + 1) = 0x4D

/-- What a step does to the two request lines, and how it answers a request that is due. -/
structure StepAnswers (machine : Machine) : Prop where
  /-- A non-maskable request comes first, whatever else is the case. -/
  nonMaskable : machine.devices.lines.nonMaskable = true →
    machine.Enters 0x0066 ∧
      machine.step.devices.lines =
        { maskable := machine.devices.lines.maskable, nonMaskable := false }
  /-- A maskable request that is due is served in the modes zero and one. -/
  maskable : machine.MaskableDue → machine.interrupts.mode ≠ .two →
    machine.Enters 0x0038 ∧ machine.step.interrupts.iff2 = false ∧
      machine.step.devices.lines = { maskable := false, nonMaskable := false }
  /-- In mode two it is dropped with one fault, and only the cycle counters change besides. -/
  dropped : machine.MaskableDue → machine.interrupts.mode = .two →
    machine.step =
        { machine with
          devices := { machine.devices with
            lines := { maskable := false, nonMaskable := false } }
          cycles := machine.cycles.begin.spend 4
          log := machine.log.push (.fault (.requestDropped machine.registers.pc)) } ∧
      machine.step.cycles.current = 4 ∧
      machine.step.faults = machine.faults ++ [.requestDropped machine.registers.pc]
  /-- A return from a maskable interrupt lowers the request. -/
  returned : machine.ExecutesReti →
    machine.step.devices.lines = { maskable := false, nonMaskable := false }
  /-- Every other step leaves the lines as they are. -/
  others : machine.NothingDue → ¬machine.ExecutesReti →
    machine.step.devices.lines = machine.devices.lines

theorem lines_of_control {next : Machine} {control : Control} (hcontrol : next.control = control) :
    next.devices.lines = control.lines :=
  congrArg Control.lines hcontrol

theorem lines_lowerMaskable (hlines : machine.devices.lines.nonMaskable = false) :
    machine.devices.lines.lowerMaskable = { maskable := false, nonMaskable := false } := by
  rw [Lines.lowerMaskable, hlines]

/-- A step that executes the return from a maskable interrupt lowers the request. -/
theorem ExecutesReti.lines_step (hreti : machine.ExecutesReti) :
    machine.step.devices.lines = { maskable := false, nonMaskable := false } := by
  obtain ⟨entry, hentry, hreturns⟩ :=
    (machine.memory.entryAt_retMaskable_iff machine.registers.pc).2 ⟨hreti.lead, hreti.opcode⟩
  have hcontrol := hreti.toExecutes.control_step
  rw [hentry, Option.elim_some, hreturns] at hcontrol
  exact (lines_of_control hcontrol).trans (lines_lowerMaskable hreti.noNonMaskable)

/-- A step that executes anything else leaves the lines as they are. -/
theorem Executes.lines_step (hexecutes : machine.Executes) (hreti : ¬machine.ExecutesReti) :
    machine.step.devices.lines = machine.devices.lines := by
  have hcontrol := hexecutes.control_step
  cases hentry : machine.memory.entryAt? machine.registers.pc with
  | none =>
      rw [hentry, Option.elim_none] at hcontrol
      exact lines_of_control hcontrol
  | some entry =>
      rw [hentry, Option.elim_some] at hcontrol
      have hreturns : entry.instruction ≠ .retMaskable := by
        intro hreturns
        obtain ⟨hlead, hopcode⟩ :=
          (machine.memory.entryAt_retMaskable_iff machine.registers.pc).1 ⟨entry, hentry, hreturns⟩
        exact hreti ⟨hexecutes, hlead, hopcode⟩
      exact (lines_of_control hcontrol).trans (Instruction.lines_control _ hreturns)

theorem NothingDue.lines_step (hnothing : machine.NothingDue) (hreti : ¬machine.ExecutesReti) :
    machine.step.devices.lines = machine.devices.lines := by
  cases hhalted : machine.halted with
  | false => exact (hnothing.executes hhalted).lines_step hreti
  | true => rw [step_idle hnothing hhalted]

theorem stepAnswers (machine : Machine) : machine.StepAnswers where
  nonMaskable hraised :=
    ⟨enters_nonMaskable hraised, lines_of_control (control_step_nonMaskable hraised)⟩
  maskable hdue hmode := by
    have hcontrol := control_step_maskable hdue hmode
    refine ⟨enters_maskable hdue hmode, ?_, ?_⟩
    · exact congrArg (fun control => control.interrupts.iff2) hcontrol
    · exact (lines_of_control hcontrol).trans (lines_lowerMaskable hdue.noNonMaskable)
  dropped hdue hmode := by
    have hstep := step_dropped hdue hmode
    rw [lines_lowerMaskable hdue.noNonMaskable] at hstep
    refine ⟨hstep, ?_, ?_⟩
    · rw [hstep]
      rfl
    · rw [hstep]
      simp [faults, Event.fault?]
  returned hreti := hreti.lines_step
  others hnothing hreti := hnothing.lines_step hreti

/-! ## Runs -/

/-- The step answers the maskable request: it serves or drops it, or it executes the return that
lowers it. -/
def AnswersMaskable (machine : Machine) : Prop :=
  machine.MaskableDue ∨ machine.ExecutesReti

/-- Some step of a run answers the maskable request. -/
def AnswersDuring (machine : Machine) (raises : List Lines) : Prop :=
  ∃ past raised future, raises = past ++ raised :: future ∧
    ((machine.runRaising past).raise raised).AnswersMaskable

/-- After a step no non-maskable request is left. -/
theorem nonMaskable_step (machine : Machine) :
    machine.step.devices.lines.nonMaskable = false := by
  have hanswers := stepAnswers machine
  cases hnonMaskable : machine.devices.lines.nonMaskable with
  | true => rw [(hanswers.nonMaskable hnonMaskable).2]
  | false =>
      by_cases hdue : machine.MaskableDue
      · by_cases hmode : machine.interrupts.mode = .two
        · rw [(hanswers.dropped hdue hmode).1]
        · rw [(hanswers.maskable hdue hmode).2.2]
      · by_cases hreti : machine.ExecutesReti
        · rw [hanswers.returned hreti]
        · rw [hanswers.others (nothingDue_of_not_due hnonMaskable hdue) hreti, hnonMaskable]

/-- A step that does not answer the maskable request leaves it as it is. -/
theorem maskable_step (hanswers : ¬machine.AnswersMaskable) :
    machine.step.devices.lines.maskable = machine.devices.lines.maskable := by
  have hstep := stepAnswers machine
  cases hnonMaskable : machine.devices.lines.nonMaskable with
  | true => rw [(hstep.nonMaskable hnonMaskable).2]
  | false =>
      have hnothing := nothingDue_of_not_due hnonMaskable fun hdue => hanswers (.inl hdue)
      rw [hstep.others hnothing fun hreti => hanswers (.inr hreti)]

/-- No step raises the maskable request. -/
theorem maskable_of_step (hafter : machine.step.devices.lines.maskable = true) :
    machine.devices.lines.maskable = true := by
  by_cases hanswers : machine.AnswersMaskable
  · have hstep := stepAnswers machine
    rcases hanswers with hdue | hreti
    · exact hdue.raised
    · rw [hstep.returned hreti] at hafter
      exact absurd hafter Bool.false_ne_true
  · rw [← maskable_step hanswers, hafter]

/-- A raised maskable request stays so until a step answers it. -/
theorem maskable_runRaising (raised : Lines) (future : List Lines)
    (hraised : (machine.raise raised).devices.lines.maskable = true) :
    (machine.runRaising (raised :: future)).devices.lines.maskable = true ∨
      machine.AnswersDuring (raised :: future) := by
  induction future generalizing machine raised with
  | nil =>
      by_cases hanswers : (machine.raise raised).AnswersMaskable
      · exact .inr ⟨[], raised, [], rfl, hanswers⟩
      · exact .inl ((maskable_step hanswers).trans hraised)
  | cons next future ih =>
      by_cases hanswers : (machine.raise raised).AnswersMaskable
      · exact .inr ⟨[], raised, next :: future, rfl, hanswers⟩
      · have hkept := (maskable_step hanswers).trans hraised
        have hnext : ((machine.raise raised).step.raise next).devices.lines.maskable = true := by
          rw [maskable_raise, hkept, Bool.true_or]
        rcases ih next hnext with hpending | ⟨past, last, rest, hsplit, hlast⟩
        · exact .inl hpending
        · exact .inr ⟨raised :: past, last, rest, by rw [hsplit]; rfl, hlast⟩

/-- What a run does with the requests that the devices raise between its steps. -/
structure AnswersRequests (start : Machine) : Prop where
  step : start.StepAnswers
  /-- The step after it was raised serves a non-maskable request. -/
  served : ∀ past raised, raised.nonMaskable = true →
    ((start.runRaising past).raise raised).Enters 0x0066
  /-- A maskable request is raised still, unless a step has answered it since. -/
  pending : ∀ past raised future,
    ((start.runRaising past).raise raised).devices.lines.maskable = true →
    (start.runRaising (past ++ raised :: future)).devices.lines.maskable = true ∨
      (start.runRaising past).AnswersDuring (raised :: future)
  /-- No step leaves a request that was not raised. -/
  notInvented : ∀ past raised,
    (start.runRaising (past ++ [raised])).devices.lines.nonMaskable = false ∧
      ((start.runRaising (past ++ [raised])).devices.lines.maskable = true →
        (start.runRaising past).devices.lines.maskable = true ∨ raised.maskable = true)

/-- In every run the requests are answered as they are raised, and none is lost or invented. -/
theorem answersRequests (start : Machine) : start.AnswersRequests where
  step := stepAnswers start
  served past raised hraised := by
    apply enters_nonMaskable
    rw [nonMaskable_raise, hraised, Bool.or_true]
  pending past raised future hraised := by
    rw [runRaising_append]
    exact maskable_runRaising raised future hraised
  notInvented past raised := by
    rw [runRaising_append, runRaising_cons, runRaising_nil]
    refine ⟨nonMaskable_step _, fun hafter => ?_⟩
    have hbefore := maskable_of_step hafter
    rw [maskable_raise, Bool.or_eq_true] at hbefore
    exact hbefore

end Z80.Machine
