import Z80.Observer.Recorder
import Z80.Proofs.Likeness.Step
import Z80.Proofs.Stack.Effect

/-!
# Modes zero and one

Nothing but the service of a maskable request looks at the interrupt mode, and that tells mode two
from the others only. So a run in mode zero and the same run in mode one differ in the mode itself
and in the notices that name it, until the program selects a mode (`Emulator.modesAlike`). In both
modes a request is served as `RST 38H` is executed (`Machine.servedAs_restart`).
-/

namespace Z80

/-! ## Forgetting the mode -/

/-- The event without the mode in which a request was served. -/
def Event.modeless : Event → Event
  | .notice (.maskableServed pc _) => .notice (.maskableServed pc .zero)
  | event => event

/-- The machine without its mode, neither the present one nor those that its log names. -/
def Machine.modeless (machine : Machine) : Machine :=
  { machine with
    interrupts := machine.interrupts.setMode .zero
    log := machine.log.map Event.modeless }

namespace Likeness

/-- The likeness of machines of which one is in mode zero where the other is in mode one. -/
def moding : Likeness :=
  { same with
    modes := fun left right => right = left ∨ left = .zero ∧ right = .one
    logs := fun left right => right.map Event.modeless = left.map Event.modeless
    modes_refl := fun _ => .inl rfl
    modes_two := by
      rintro left right (rfl | ⟨rfl, rfl⟩)
      · exact Iff.rfl
      · exact iff_of_false nofun nofun
    logs_push := by
      intro left right hlogs event
      rw [Array.map_push, Array.map_push, hlogs]
    logs_served := by
      intro left right first second hlogs _ pc
      rw [Array.map_push, Array.map_push, hlogs]
      rfl }

/-- Machines in modes zero and one that do not differ otherwise. -/
theorem moding_of_modes {left right : Machine} (hzero : left.interrupts.mode = .zero)
    (hone : right = left.updateInterrupts (·.setMode .one)) : moding.OfMachines left right := by
  have hinterrupts : moding.OfInterrupts left.interrupts (left.interrupts.setMode .one) :=
    ⟨rfl, rfl, .inr ⟨hzero, rfl⟩⟩
  rw [hone]
  exact (OfMachines.across left rfl).withInterrupts hinterrupts

namespace OfMachines

variable {left right : Machine}

theorem modeless (halike : moding.OfMachines left right) : right.modeless = left.modeless := by
  -- With the present mode forgotten on both sides, nothing but the logs can differ.
  have hforgotten :=
    (halike.withInterrupts (halike.interrupts.setMode .zero)).eq_of_exact Eq.symm rfl
  have hmapped := congrArg
    (fun machine : Machine => { machine with log := machine.log.map Event.modeless }) hforgotten
  refine hmapped.trans ?_
  show { left.modeless with log := right.log.map Event.modeless } = left.modeless
  rw [halike.log]
  rfl

end OfMachines

end Likeness

/-! ## Selecting a mode -/

/-- The mode that an instruction selects, if it selects one. -/
def Instruction.mode? : Instruction → Option InterruptMode
  | .interruptMode mode => some mode
  | _ => none

theorem Instruction.mode_control (instruction : Instruction) (control : Control) :
    (instruction.control control).interrupts.mode =
      instruction.mode?.getD control.interrupts.mode := by
  cases instruction <;> rfl

/-- The opcodes that select a mode, on the page of extensions. -/
def interruptModeOpcodes : List Byte :=
  [0x46, 0x4E, 0x56, 0x5E, 0x66, 0x6E, 0x76, 0x7E]

theorem spelledBy_mode :
    SpelledBy (fun instruction => instruction.mode?.isSome) [] interruptModeOpcodes where
  plain := by decide +kernel
  extended := by decide +kernel
  indexed := by
    intro index
    cases index <;> decide +kernel
  bits := by
    intro opcode target copy
    unfold Page.bitInstruction
    split <;> exact nofun

namespace Machine

variable {machine : Machine}

/-- The step executes `IM`. -/
def SelectsMode (machine : Machine) : Prop :=
  machine.Executes ∧ machine.read machine.registers.pc = 0xED ∧
    machine.read (machine.registers.pc + 1) ∈ interruptModeOpcodes

/-- The mode that the instruction at the program counter selects. -/
def spelledMode? (machine : Machine) : Option InterruptMode :=
  (machine.memory.entryAt? machine.registers.pc).bind (·.instruction.mode?)

theorem Executes.selectsMode_iff (hexecutes : machine.Executes) :
    machine.SelectsMode ↔ machine.spelledMode?.isSome := by
  have hspelled := spelledBy_mode.entryAt_iff machine.memory machine.registers.pc
  simp only [List.not_mem_nil, false_or] at hspelled
  show machine.Executes ∧ machine.memory.read _ = _ ∧ machine.memory.read _ ∈ _ ↔ _
  rw [and_iff_right hexecutes, ← hspelled]
  unfold spelledMode?
  cases machine.memory.entryAt? machine.registers.pc <;> simp

theorem Executes.mode_step (hexecutes : machine.Executes) :
    machine.step.interrupts.mode = machine.spelledMode?.getD machine.interrupts.mode := by
  show machine.step.control.interrupts.mode = _
  rw [hexecutes.control_step, spelledMode?]
  cases machine.memory.entryAt? machine.registers.pc with
  | none => rfl
  | some entry => exact entry.instruction.mode_control machine.control

/-- A step that executes no instruction keeps the mode. -/
theorem mode_step_of_not_executes (hexecutes : ¬machine.Executes) :
    machine.step.interrupts.mode = machine.interrupts.mode := by
  have hcontrol := machine.stepControl
  show machine.step.control.interrupts.mode = _
  generalize machine.step.control = after at hcontrol ⊢
  cases hcontrol with
  | nonMaskable | served | dropped | idle => rfl
  | unhandled h | executed h => exact absurd h hexecutes

end Machine

namespace Likeness.OfMachines

variable {left right : Machine}

/-- After a step the modes are the same if they were before it, or if the step selects one. -/
theorem mode_step_iff (halike : moding.OfMachines left right) :
    right.step.interrupts.mode = left.step.interrupts.mode ↔
      right.interrupts.mode = left.interrupts.mode ∨ left.SelectsMode := by
  by_cases hexecutes : left.Executes
  -- Both read the same instruction, so either selects the mode that the other one does.
  · have hsame : right.spelledMode? = left.spelledMode? := by
      rw [Machine.spelledMode?, halike.entryAt, Machine.spelledMode?]
    rw [hexecutes.selectsMode_iff, hexecutes.mode_step,
      (halike.executes_iff.2 hexecutes).mode_step, hsame]
    cases left.spelledMode? <;> simp
  · rw [Machine.mode_step_of_not_executes hexecutes,
      Machine.mode_step_of_not_executes (mt halike.executes_iff.1 hexecutes)]
    simp [Machine.SelectsMode, hexecutes]

variable {σ τ : Type} [Observer σ] [Observer τ] {first : Emulator σ} {second : Emulator τ}
  {interludes : List (Interlude σ)} {others : List (Interlude τ)}

/-- After a run the modes are the same if they were before it, or if some step has selected one. -/
theorem mode_run_iff (halike : moding.OfMachines first.machine second.machine)
    (hdevices : others.map (·.devices) = interludes.map (·.devices)) :
    (second.run others).2.machine.interrupts.mode =
        (first.run interludes).2.machine.interrupts.mode ↔
      second.machine.interrupts.mode = first.machine.interrupts.mode ∨
        first.Meets interludes Machine.SelectsMode := by
  induction interludes generalizing first second others with
  | nil =>
      obtain rfl : others = [] := List.map_eq_nil_iff.1 hdevices
      exact (or_iff_left Emulator.not_meets_nil).symm
  | cons interlude interludes ih =>
      obtain ⟨other, rest, rfl, hdevice, hrest⟩ := List.map_eq_cons_iff.1 hdevices
      have hpaused := halike.pause hdevice
      have hstep : moding.OfMachines (first.pause interlude).step.2.machine
          (second.pause other).step.2.machine :=
        hpaused.step rfl fun _ => Eq.symm
      rw [Emulator.run_cons, Emulator.run_cons, Emulator.meets_cons, ← or_assoc]
      exact (ih hstep hrest).trans (or_congr_left hpaused.mode_step_iff)

end Likeness.OfMachines

/-! ## Serving as restarting -/

namespace Machine

variable {machine : Machine}

/-- The step serves a maskable request as an entry is performed with the same program counter.
Besides, the processor runs on, the request and all others are held back, and a notice is given
first. -/
def ServedAs (machine : Machine) (entry : Entry) : Prop :=
  let performed := { machine with cycles := machine.cycles.begin }.perform entry
  let notice := Notice.maskableServed machine.registers.pc machine.interrupts.mode
  machine.step =
      { performed with
        halted := false
        interrupts := machine.interrupts.disable
        devices := { machine.devices with lines := machine.devices.lines.lowerMaskable }
        log := machine.step.log } ∧
    ∃ events, performed.log.toList = machine.log.toList ++ events ∧
      machine.step.log.toList = machine.log.toList ++ .notice notice :: events

theorem log_spend (machine : Machine) (count : BitVec 32) :
    (machine.spend count).log = machine.log :=
  rfl

/-- Outside mode two, every maskable request is served as `RST 38H` is performed. -/
theorem servedAs_restart (hdue : machine.MaskableDue) (hmode : machine.interrupts.mode ≠ .two) :
    ∃ entry ∈ Page.unprefixedEntry? 0xFF, entry.name = "RST 38H" ∧ machine.ServedAs entry := by
  refine ⟨⟨.restart maskableVector, "RST 38H", .fixed interruptCost⟩, by decide +kernel, rfl, ?_⟩
  have hperform (machine : Machine) (vector : Word) (name : String) :
      machine.perform ⟨.restart vector, name, .fixed interruptCost⟩ =
        (machine.spend interruptCost).call vector := rfl
  unfold ServedAs
  rw [step_maskable_of_served hdue hmode, hperform]
  refine ⟨?_, machine.pushEvents machine.registers.pc, ?_, ?_⟩
  · simp only [call, push_eq]
    rfl
  · rw [toList_log_call]
    rfl
  · rw [log_spend, toList_log_call, Array.toList_push, List.append_assoc]
    rfl

end Machine

/-! ## Runs -/

namespace Emulator

variable {σ τ : Type} [Observer σ] [Observer τ] {first : Emulator σ} {second : Emulator τ}
  {interludes : List (Interlude σ)} {others : List (Interlude τ)}

/-- Two runs differ in their modes at most, and no more in those either once one is selected. -/
structure RunModeless (first : Emulator σ) (second : Emulator τ) (interludes : List (Interlude σ))
    (others : List (Interlude τ)) : Prop where
  returned : (second.run others).1 = (first.run interludes).1
  machine : (second.run others).2.machine.modeless = (first.run interludes).2.machine.modeless
  mode_iff : (second.run others).2.machine.interrupts.mode =
      (first.run interludes).2.machine.interrupts.mode ↔
    first.Meets interludes Machine.SelectsMode

/-- How modes zero and one are alike: at every point of two runs, and in what serving a request
does. -/
structure ModesAlike (first : Emulator σ) (second : Emulator τ) (interludes : List (Interlude σ))
    (others : List (Interlude τ)) : Prop where
  runs : ∀ count, RunModeless first second (interludes.take count) (others.take count)
  served : ∀ machine : Machine, machine.MaskableDue → machine.interrupts.mode ≠ .two →
    ∃ entry ∈ Page.unprefixedEntry? 0xFF, entry.name = "RST 38H" ∧ machine.ServedAs entry

theorem runModeless (hzero : first.machine.interrupts.mode = .zero)
    (hone : second.machine = first.machine.updateInterrupts (·.setMode .one))
    (hdevices : others.map (·.devices) = interludes.map (·.devices)) :
    RunModeless first second interludes others := by
  have halike := Likeness.moding_of_modes hzero hone
  have hdiffer : second.machine.interrupts.mode ≠ first.machine.interrupts.mode := by
    rw [hone, hzero]
    exact nofun
  obtain ⟨hreturned, hfinal⟩ := halike.run rfl Eq.symm hdevices
  exact ⟨hreturned, hfinal.modeless, (halike.mode_run_iff hdevices).trans (or_iff_right hdiffer)⟩

/-- Two runs of machines that differ in the mode alone, which is zero in one and one in the other,
are alike if their devices do the same between the steps. -/
theorem modesAlike (hzero : first.machine.interrupts.mode = .zero)
    (hone : second.machine = first.machine.updateInterrupts (·.setMode .one))
    (hdevices : others.map (·.devices) = interludes.map (·.devices)) :
    ModesAlike first second interludes others where
  runs count := by
    refine runModeless hzero hone ?_
    rw [List.map_take, List.map_take, hdevices]
  served _ := Machine.servedAs_restart

/-- The program enables interrupts and waits. A request is served while the modes differ, so that
the notices name them both; then the routine selects mode one. -/
theorem modesAlike_of_request :
    let machine : Machine :=
      { registers := { sp := 0x9000 }
        memory := (Memory.blank.load 0 [0xFB, 0x76]).load 0x38 [0xED, 0x56] }
    let first : Emulator Recorder := { machine, observer := {} }
    let second : Emulator Recorder :=
      { machine := machine.updateInterrupts (·.setMode .one), observer := {} }
    let raise (devices : Devices) := { devices with lines := devices.lines.raiseMaskable }
    let interludes : List (Interlude Recorder) := [{}, {}, { devices := raise }, {}]
    first.machine.interrupts.mode = .zero ∧
      second.machine = first.machine.updateInterrupts (·.setMode .one) ∧
      ModesAlike first second interludes interludes ∧
      (first.run interludes).1 = [4, 4, 11, 8] ∧
      (first.run interludes).2.machine.log ≠ (second.run interludes).2.machine.log ∧
      first.Meets interludes Machine.SelectsMode := by
  intro machine first second raise interludes
  have hmodes : ModesAlike first second interludes interludes := modesAlike rfl rfl rfl
  refine ⟨rfl, rfl, hmodes, ?_, ?_, ?_⟩
  · decide +kernel
  · decide +kernel
  · refine (hmodes.runs 4).mode_iff.1 ?_
    decide +kernel

end Emulator

end Z80
