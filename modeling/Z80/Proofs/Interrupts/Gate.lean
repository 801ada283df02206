import Mathlib.Data.List.Induction
import Z80.Proofs.Interrupts.Requests
import Z80.Proofs.Runs.Interludes

/-!
# The gate and what it keeps

An open gate is kept open: `iff1` is never set without `iff2`. The other way round the two differ
only while a non-maskable interrupt is served that was accepted with the gate open. So the
flip-flops tell something of the past of the machine (`Emulator.gateHistory`), whatever was done
with it since it was built. The invariant is carried by `MovesGate`, which says what an action can
do to the flip-flops.
-/

namespace Z80

/-! ## What is done with an emulator -/

/-- Something that is done with an emulator. Apart from taking steps it can be reset, its devices
can change their request lines and their bytes, and its flip-flops and its mode can be set without
an instruction. -/
inductive Action where
  | step
  | reset
  | devices (change : Devices → Devices)
  | enable
  | disable
  | setMode (mode : InterruptMode)
  | restore

namespace Emulator

variable {σ : Type} [Observer σ]

/-- Does one thing. -/
def act (emulator : Emulator σ) : Action → Emulator σ
  | .step => emulator.step.2
  | .reset => emulator.reset
  | .devices change => emulator.modify (·.withDevices change)
  | .enable => emulator.modify (·.updateInterrupts Interrupts.enable)
  | .disable => emulator.modify (·.updateInterrupts Interrupts.disable)
  | .setMode mode => emulator.modify (·.updateInterrupts (·.setMode mode))
  | .restore => emulator.modify (·.updateInterrupts Interrupts.restore)

/-- Does one thing after the other. -/
def actAll (emulator : Emulator σ) (actions : List Action) : Emulator σ :=
  actions.foldl act emulator

end Emulator

/-! ## The instructions that set the gate -/

/-- The instruction sets the flip-flops. -/
def Instruction.SetsGate (instruction : Instruction) : Prop :=
  instruction = .enableInterrupts ∨ instruction = .disableInterrupts ∨
    instruction = .retNonMaskable

instance : DecidablePred Instruction.SetsGate :=
  fun _ => inferInstanceAs (Decidable (_ ∨ _ ∨ _))

/-- The bytes at an address spell `EI`, `DI` or `RETN`. -/
def Memory.SpellsGate (memory : Memory) (address : Word) : Prop :=
  memory.read address = 0xFB ∨ memory.read address = 0xF3 ∨
    memory.read address = 0xED ∧ memory.read (address + 1) ∈ retNonMaskableOpcodes

theorem spelledBy_setsGate :
    SpelledBy Instruction.SetsGate [0xFB, 0xF3] retNonMaskableOpcodes where
  plain := by decide +kernel
  extended := by decide +kernel
  indexed := by
    intro index
    cases index <;> decide +kernel
  bits := by
    intro opcode target copy
    unfold Page.bitInstruction Instruction.SetsGate
    split <;> simp

theorem Memory.spellsGate_iff (memory : Memory) (address : Word) :
    memory.SpellsGate address ↔
      ∃ entry ∈ memory.entryAt? address, entry.instruction.SetsGate := by
  rw [spelledBy_setsGate.entryAt_iff]
  simp [SpellsGate, or_assoc]

/-- After an instruction that sets them the flip-flops are the same. -/
theorem Instruction.SetsGate.level {instruction : Instruction} (hsets : instruction.SetsGate)
    (control : Control) :
    (instruction.control control).interrupts.iff1 =
      (instruction.control control).interrupts.iff2 := by
  obtain rfl | rfl | rfl := hsets <;> rfl

/-- Every other instruction leaves them as they were. -/
theorem Instruction.gate_control {instruction : Instruction} (hkeeps : ¬instruction.SetsGate)
    (control : Control) :
    (instruction.control control).interrupts.iff1 = control.interrupts.iff1 ∧
      (instruction.control control).interrupts.iff2 = control.interrupts.iff2 := by
  cases instruction with
  | enableInterrupts => exact absurd (.inl rfl) hkeeps
  | disableInterrupts => exact absurd (.inr (.inl rfl)) hkeeps
  | retNonMaskable => exact absurd (.inr (.inr rfl)) hkeeps
  | _ => exact ⟨rfl, rfl⟩

/-! ## What one action does -/

namespace Machine

/-- The action sets the flip-flops whatever they were: a step that accepts a non-maskable request
or executes an instruction that sets them, a reset, or setting them directly. -/
def SetsGate (machine : Machine) : Action → Prop
  | .step =>
      machine.devices.lines.nonMaskable = true ∨
        machine.Executes ∧ machine.memory.SpellsGate machine.registers.pc
  | .reset | .enable | .disable | .restore => True
  | .devices _ | .setMode _ => False

/-- What an action does to the flip-flops. -/
inductive MovesGate (machine : Machine) (action : Action) (after : Interrupts) : Prop
  /-- It accepts a non-maskable request: the gate is closed, and its state is kept. -/
  | accepted (haction : action = .step) (hraised : machine.devices.lines.nonMaskable = true)
      (hclosed : after.iff1 = false) (hkept : after.iff2 = machine.interrupts.iff1)
  /-- It makes them the same. Serving a maskable request does so too, but only where the gate is
  open. -/
  | levelled (hwhy : machine.SetsGate action ∨ machine.interrupts.iff1 = true)
      (hlevel : after.iff1 = after.iff2)
  /-- It leaves them alone. -/
  | kept (hkeeps : ¬machine.SetsGate action) (hiff1 : after.iff1 = machine.interrupts.iff1)
      (hiff2 : after.iff2 = machine.interrupts.iff2)

variable {machine : Machine}

/-- A step that executes an instruction accepts no non-maskable request. -/
theorem Executes.setsGate_iff (hexecutes : machine.Executes) :
    machine.SetsGate .step ↔ machine.memory.SpellsGate machine.registers.pc := by
  simp [SetsGate, hexecutes, hexecutes.noNonMaskable]

/-- All the others leave the flip-flops as they were. -/
theorem Executes.gate_step (hexecutes : machine.Executes)
    (hkeeps : ¬machine.memory.SpellsGate machine.registers.pc) :
    machine.step.interrupts.iff1 = machine.interrupts.iff1 ∧
      machine.step.interrupts.iff2 = machine.interrupts.iff2 := by
  rw [Memory.spellsGate_iff] at hkeeps
  show machine.step.control.interrupts.iff1 = _ ∧ machine.step.control.interrupts.iff2 = _
  rw [hexecutes.control_step]
  cases hentry : machine.memory.entryAt? machine.registers.pc with
  | none => exact ⟨rfl, rfl⟩
  | some entry =>
      exact Instruction.gate_control (fun hsets => hkeeps ⟨entry, hentry, hsets⟩) _

/-- A step that executes no instruction sets the flip-flops only to accept such a request. -/
theorem not_setsGate_step (hnonMaskable : machine.devices.lines.nonMaskable = false)
    (hexecutes : ¬machine.Executes) : ¬machine.SetsGate .step := by
  simp [SetsGate, hexecutes, hnonMaskable]

theorem step_movesGate (machine : Machine) : machine.MovesGate .step machine.step.interrupts := by
  have hcontrol := machine.stepControl
  show machine.MovesGate .step machine.step.control.interrupts
  generalize machine.step.control = after at hcontrol ⊢
  cases hcontrol with
  | nonMaskable hraised => exact .accepted rfl hraised rfl rfl
  | served hdue _ => exact .levelled (.inr hdue.enabled) rfl
  | dropped hdue _ =>
      exact .kept (not_setsGate_step hdue.noNonMaskable hdue.not_executes) rfl rfl
  | idle hnothing hhalted =>
      have hexecutes : ¬machine.Executes := fun hexecutes =>
        Bool.false_ne_true (hexecutes.running.symm.trans hhalted)
      exact .kept (not_setsGate_step hnothing.noNonMaskable hexecutes) rfl rfl
  | unhandled hexecutes hnone =>
      refine .kept ?_ rfl rfl
      rw [hexecutes.setsGate_iff, Memory.spellsGate_iff, hnone]
      rintro ⟨entry, hentry, _⟩
      exact Option.not_mem_none entry hentry
  | executed hexecutes hentry =>
      rename_i entry
      have hsets : machine.SetsGate .step ↔ entry.instruction.SetsGate := by
        rw [hexecutes.setsGate_iff, Memory.spellsGate_iff, Option.mem_def.1 hentry]
        simp
      by_cases hgate : entry.instruction.SetsGate
      · exact .levelled (.inl (hsets.2 hgate)) (hgate.level _)
      · obtain ⟨hiff1, hiff2⟩ := Instruction.gate_control hgate machine.control
        exact .kept (mt hsets.1 hgate) hiff1 hiff2

end Machine

/-- The gate is suspended: it is closed, and was open before that. -/
def Interrupts.Suspended (interrupts : Interrupts) : Prop :=
  interrupts.iff1 = false ∧ interrupts.iff2 = true

namespace Emulator

variable {σ : Type} [Observer σ]

/-- The flip-flops and the mode of an emulator's machine. -/
def interrupts (emulator : Emulator σ) : Interrupts :=
  emulator.machine.interrupts

/-- Whatever is done, the flip-flops move in one of three ways. -/
theorem act_movesGate (emulator : Emulator σ) (action : Action) :
    emulator.machine.MovesGate action (emulator.act action).interrupts := by
  cases action with
  | step => exact emulator.machine.step_movesGate
  | reset | enable | disable | restore => exact .levelled (.inl trivial) rfl
  | devices | setMode => exact .kept not_false rfl rfl

/-! ## What a sequence of actions does -/

@[simp] theorem actAll_nil (emulator : Emulator σ) : emulator.actAll [] = emulator :=
  rfl

@[simp] theorem actAll_cons (emulator : Emulator σ) (action : Action) (actions : List Action) :
    emulator.actAll (action :: actions) = (emulator.act action).actAll actions :=
  rfl

theorem actAll_append (emulator : Emulator σ) (past future : List Action) :
    emulator.actAll (past ++ future) = (emulator.actAll past).actAll future :=
  List.foldl_append

/-- No action of a sequence sets the flip-flops. -/
def LeavesGate (emulator : Emulator σ) : List Action → Prop
  | [] => True
  | action :: actions =>
      ¬emulator.machine.SetsGate action ∧ (emulator.act action).LeavesGate actions

theorem leavesGate_concat (emulator : Emulator σ) (actions : List Action) (last : Action) :
    emulator.LeavesGate (actions ++ [last]) ↔
      emulator.LeavesGate actions ∧ ¬(emulator.actAll actions).machine.SetsGate last := by
  induction actions generalizing emulator with
  | nil => simp [LeavesGate]
  | cons action actions ih => simp [LeavesGate, ih, and_assoc]

/-- Some step of a sequence has accepted a non-maskable request with the gate open, and nothing has
set the flip-flops since. -/
def HasSuspended (emulator : Emulator σ) (actions : List Action) : Prop :=
  ∃ past future, actions = past ++ .step :: future ∧
    (emulator.actAll past).machine.devices.lines.nonMaskable = true ∧
    (emulator.actAll past).interrupts.iff1 = true ∧
    ((emulator.actAll past).act .step).LeavesGate future

/-- A suspended gate stays so until something sets the flip-flops: no maskable request is served
while the gate is closed. -/
theorem suspended_actAll {emulator : Emulator σ} (hsuspended : emulator.interrupts.Suspended)
    {actions : List Action} (hleaves : emulator.LeavesGate actions) :
    (emulator.actAll actions).interrupts.Suspended := by
  induction actions generalizing emulator with
  | nil => exact hsuspended
  | cons action actions ih =>
      obtain ⟨hkeeps, hrest⟩ := hleaves
      refine ih ?_ hrest
      cases emulator.act_movesGate action with
      | accepted haction hraised _ _ =>
          rw [haction] at hkeeps
          exact absurd (.inl hraised) hkeeps
      | levelled hwhy _ =>
          rcases hwhy with hsets | hopen
          · exact absurd hsets hkeeps
          · exact absurd (hsuspended.1.symm.trans hopen) Bool.false_ne_true
      | kept _ hiff1 hiff2 => exact ⟨hiff1.trans hsuspended.1, hiff2.trans hsuspended.2⟩

/-- If the gate is suspended after a sequence, and was not before, then the sequence has done it. -/
theorem hasSuspended_of_suspended {emulator : Emulator σ} {actions : List Action}
    (hstart : ¬emulator.interrupts.Suspended)
    (hsuspended : (emulator.actAll actions).interrupts.Suspended) :
    emulator.HasSuspended actions := by
  -- The last action has suspended the gate, or found it suspended and left it so.
  induction actions using List.reverseRecOn with
  | nil => exact absurd hsuspended hstart
  | append_singleton actions action ih =>
      rw [actAll_append] at hsuspended
      obtain ⟨hclosed, hkept⟩ := hsuspended
      cases (emulator.actAll actions).act_movesGate action with
      | accepted haction hraised _ hopen =>
          rw [haction] at hkept hopen ⊢
          exact ⟨actions, [], rfl, hraised, hopen.symm.trans hkept, trivial⟩
      | levelled _ hlevel =>
          exact absurd (hclosed.symm.trans (hlevel.trans hkept)) Bool.false_ne_true
      | kept hkeeps hiff1 hiff2 =>
          obtain ⟨past, future, rfl, hraised, hopen, hleaves⟩ :=
            ih ⟨hiff1.symm.trans hclosed, hiff2.symm.trans hkept⟩
          refine ⟨past, future ++ [action], by simp, hraised, hopen, ?_⟩
          rw [actAll_append] at hkeeps
          exact (leavesGate_concat _ _ _).2 ⟨hleaves, hkeeps⟩

theorem suspended_of_hasSuspended {emulator : Emulator σ} {actions : List Action}
    (hhas : emulator.HasSuspended actions) : (emulator.actAll actions).interrupts.Suspended := by
  obtain ⟨past, future, rfl, hraised, hopen, hleaves⟩ := hhas
  have hsuspended : ((emulator.actAll past).act .step).interrupts.Suspended := by
    show (emulator.actAll past).machine.step.control.interrupts.Suspended
    rw [Machine.control_step_nonMaskable hraised]
    exact ⟨rfl, hopen⟩
  rw [actAll_append]
  exact suspended_actAll hsuspended hleaves

/-- The gate is never open without being kept open. -/
theorem iff2_of_iff1 {emulator : Emulator σ}
    (hstart : emulator.interrupts.iff1 = true → emulator.interrupts.iff2 = true)
    (actions : List Action) :
    (emulator.actAll actions).interrupts.iff1 = true →
      (emulator.actAll actions).interrupts.iff2 = true := by
  induction actions generalizing emulator with
  | nil => exact hstart
  | cons action actions ih =>
      refine ih fun hopen => ?_
      cases emulator.act_movesGate action with
      | accepted _ _ hclosed _ => exact absurd (hclosed.symm.trans hopen) Bool.false_ne_true
      | levelled _ hlevel => exact hlevel.symm.trans hopen
      | kept _ hiff1 hiff2 => exact hiff2.trans (hstart (hiff1.symm.trans hopen))

/-- What the flip-flops tell after a sequence of actions, and what leaves them alone. -/
structure GateHistory (start : Emulator σ) (actions : List Action) : Prop where
  open_kept : (start.actAll actions).interrupts.iff1 = true →
    (start.actAll actions).interrupts.iff2 = true
  /-- The gate is suspended exactly if a non-maskable request was accepted with the gate open and
  nothing has set the flip-flops since. -/
  suspended_iff : (start.actAll actions).interrupts.Suspended ↔ start.HasSuspended actions
  /-- No instruction besides `EI`, `DI` and `RETN` changes them. -/
  others : (start.actAll actions).machine.Executes →
    ¬(start.actAll actions).machine.memory.SpellsGate
      (start.actAll actions).machine.registers.pc →
    ((start.actAll actions).act .step).interrupts.iff1 =
        (start.actAll actions).interrupts.iff1 ∧
      ((start.actAll actions).act .step).interrupts.iff2 =
        (start.actAll actions).interrupts.iff2

/-- So it is after everything that can be done with a new emulator. -/
theorem gateHistory (config : Config) (machine : Machine) (observer : σ)
    (actions : List Action) : (create config machine observer).GateHistory actions where
  open_kept := by
    have hstart : (create config machine observer).interrupts.iff1 = true →
        (create config machine observer).interrupts.iff2 = true := id
    exact iff2_of_iff1 hstart actions
  suspended_iff := by
    have hstart : ¬(create config machine observer).interrupts.Suspended :=
      fun hsuspended => Bool.false_ne_true hsuspended.2
    exact ⟨hasSuspended_of_suspended hstart, suspended_of_hasSuspended⟩
  others := Machine.Executes.gate_step

end Emulator

end Z80
