import Z80.Proofs.Frame.Fetch
import Z80.Proofs.Frame.Registers
import Z80.Proofs.Tracing.Run

/-!
# Waiting for an interrupt

A halted processor waits until a step enters an interrupt routine. Until then every step takes four
cycles, and nothing becomes of it but that a maskable request is dropped in mode two
(`Machine.Waits.step`). So the word that is pushed in the end is the program counter with which the
processor was halted, which is the address behind `HALT` (`Emulator.waitsForInterrupt`).
-/

namespace Z80

namespace Machine

/-- A request is due at the next step, whatever becomes of it. -/
def RequestDue (machine : Machine) : Prop :=
  machine.devices.lines.nonMaskable = true ∨ machine.MaskableDue

/-- The processor is halted, and the next step does not change that. -/
structure Waits (machine : Machine) : Prop where
  halted : machine.halted = true
  stays : ¬machine.EntersInterrupt

/-- How many requests the next step drops, if the processor waits. -/
def drops (machine : Machine) : Nat :=
  (machine.interrupts.iff1 && machine.devices.lines.maskable).toNat

/-- Since a starting point, a machine has waited and has dropped a number of requests. Its cycles
and its devices may be other ones, and its log reports the requests. -/
structure WaitedFrom (start : Machine) (count : Nat) (machine : Machine) : Prop where
  kept : machine =
    { start with cycles := machine.cycles, devices := machine.devices, log := machine.log }
  log : machine.log.toList = start.log.toList ++
    List.replicate count (.fault (.requestDropped start.registers.pc))

variable {start machine : Machine}

theorem nothingDue_of_not_requestDue (hdue : ¬machine.RequestDue) : machine.NothingDue :=
  nothingDue_of_not_due (Bool.eq_false_iff.2 fun hraised => hdue (.inl hraised))
    fun hmaskable => hdue (.inr hmaskable)

theorem MaskableDue.drops_eq (hdue : machine.MaskableDue) : machine.drops = 1 := by
  rw [drops, hdue.enabled, hdue.raised]
  rfl

theorem NothingDue.drops_eq (hnothing : machine.NothingDue) : machine.drops = 0 := by
  rw [drops]
  rcases hnothing.noMaskable with hclosed | hlowered
  · rw [hclosed]
    rfl
  · rw [hlowered, Bool.and_false]
    rfl

namespace WaitedFrom

variable {count : Nat}

theorem refl (machine : Machine) : machine.WaitedFrom 0 machine :=
  ⟨rfl, (List.append_nil _).symm⟩

theorem trans {between : Machine} {later : Nat} (hfirst : start.WaitedFrom count between)
    (hsecond : between.WaitedFrom later machine) : start.WaitedFrom (count + later) machine where
  kept := by
    have hkept := hsecond.kept
    rw [hfirst.kept] at hkept
    exact hkept
  log := by
    have hpc : between.registers.pc = start.registers.pc := by rw [hfirst.kept]
    rw [hsecond.log, hfirst.log, hpc, List.append_assoc, List.replicate_append_replicate]

theorem halted (hwaited : start.WaitedFrom count machine) (hhalted : start.halted = true) :
    machine.halted = true := by
  rw [hwaited.kept]
  exact hhalted

theorem registers (hwaited : start.WaitedFrom count machine) :
    machine.registers = start.registers := by
  rw [hwaited.kept]

end WaitedFrom

/-- While the devices change, the processor waits without dropping anything. -/
theorem waitedFrom_withDevices (machine : Machine) (change : Devices → Devices) :
    machine.WaitedFrom 0 (machine.withDevices change) :=
  ⟨rfl, (List.append_nil _).symm⟩

/-- A waiting processor idles or drops a request. -/
theorem Waits.step (hwaits : machine.Waits) :
    machine.WaitedFrom machine.drops machine.step ∧ machine.step.cycles.current = 4 := by
  obtain ⟨hhalted, hstays⟩ := hwaits
  cases machine.stepKind with
  | nonMaskable hraised => exact absurd (.inl hraised) hstays
  | served hdue hmode => exact absurd (.inr ⟨hdue, hmode⟩) hstays
  | dropped hdue hmode =>
      rw [hdue.drops_eq, step_dropped hdue hmode]
      exact ⟨⟨rfl, Array.toList_push⟩, rfl⟩
  | idle hnothing =>
      rw [hnothing.drops_eq, step_idle hnothing hhalted]
      exact ⟨⟨rfl, (List.append_nil _).symm⟩, rfl⟩
  | executes hexecutes =>
      exact absurd (hexecutes.running.symm.trans hhalted) Bool.false_ne_true

/-- The step that ends a wait enters an interrupt routine from a program counter. -/
structure WakesFrom (machine : Machine) (pc : Word) : Prop where
  pc : machine.registers.pc = pc
  nonMaskable : machine.devices.lines.nonMaskable = true → machine.Enters 0x0066
  maskable : machine.MaskableDue → machine.interrupts.mode ≠ .two → machine.Enters 0x0038

/-! ## Executing `HALT` -/

theorem code_halt (hopcode : machine.read machine.registers.pc = 0x76) :
    machine.memory.code machine.registers.pc = { page := .unprefixed, opcode := 0x76 } := by
  have hfirst : machine.memory.read machine.registers.pc = 0x76 := hopcode
  rw [Memory.code, hfirst]
  rfl

/-- Executing `HALT` halts the processor, with the program counter behind the opcode. -/
theorem step_halt (hexecutes : machine.Executes)
    (hopcode : machine.read machine.registers.pc = 0x76) :
    machine.step.halted = true ∧ machine.step.registers.pc = machine.registers.pc + 1 := by
  have hcode := code_halt hopcode
  constructor
  · refine (halts_iff hexecutes.running).2 ⟨hexecutes, ?_⟩
    rw [hcode]
    decide
  · have hlength : machine.codeLength = 1 := by
      rw [codeLength, hcode]
      decide
    have hgoes : machine.GoesOn := by
      refine ⟨hexecutes, ⟨.halt, "HALT", .fixed 4⟩, ?_, rfl⟩
      rw [Memory.entryAt?, hcode]
      rfl
    rw [pc_step hgoes, hlength]
    rfl

end Machine

/-! ## Runs -/

namespace Emulator

variable {σ : Type}

/-- The emulator after it has idled through a list of interludes. -/
def idled (emulator : Emulator σ) (interludes : List (Interlude σ)) : Emulator σ :=
  { emulator with
    machine := { emulator.machine with
      cycles := interludes.foldl (fun cycles _ => cycles.begin.spend 4) emulator.machine.cycles
      devices := interludes.foldl (fun devices interlude => interlude.devices devices)
        emulator.machine.devices }
    observer := interludes.foldl (fun observer interlude => interlude.observer observer)
      emulator.observer }

/-- The emulator after a step that has dropped a request. -/
def dropped [Observer σ] (emulator : Emulator σ) : Emulator σ :=
  let machine := emulator.machine
  let fault := Fault.requestDropped machine.registers.pc
  { emulator with
    machine := { machine with
      cycles := machine.cycles.begin.spend 4
      devices := { machine.devices with lines := machine.devices.lines.lowerMaskable }
      log := machine.log.push (.fault fault) }
    observer := Observer.error fault.message emulator.observer }

variable [Observer σ]

/-- How many requests the steps of a run drop, if the processor waits. -/
def drops (emulator : Emulator σ) : List (Interlude σ) → Nat
  | [] => 0
  | interlude :: interludes =>
      (emulator.pause interlude).machine.drops +
        (emulator.pause interlude).step.2.drops interludes

variable {start : Emulator σ}

/-- With nothing due, the step of a halted processor is told to nobody. -/
theorem step_idle (hnothing : start.machine.NothingDue) (hhalted : start.machine.halted = true) :
    start.step = (4, { start with
      machine := { start.machine with cycles := start.machine.cycles.begin.spend 4 } }) := by
  have hstep := Machine.step_idle hnothing hhalted
  have hlog : start.machine.step.log.toList = start.machine.log.toList ++ [] := by
    rw [hstep, List.append_nil]
  rw [step_eq_of_log hlog, hstep]
  rfl

theorem step_dropped (hdue : start.machine.MaskableDue)
    (hmode : start.machine.interrupts.mode = .two) : start.step = (4, start.dropped) := by
  have hstep := Machine.step_dropped hdue hmode
  have hlog : start.machine.step.log.toList = start.machine.log.toList ++
      [.fault (.requestDropped start.machine.registers.pc)] := by
    rw [hstep, Array.toList_push]
  rw [step_eq_of_log hlog, hstep]
  rfl

/-- As long as no request is due, a halted processor idles. -/
theorem run_idle {interludes : List (Interlude σ)} (hhalted : start.machine.halted = true)
    (hnever : ¬start.Meets interludes Machine.RequestDue) :
    start.run interludes = (List.replicate interludes.length 4, start.idled interludes) := by
  induction interludes generalizing start with
  | nil => rfl
  | cons interlude interludes ih =>
      rw [meets_cons, not_or] at hnever
      obtain ⟨hfirst, hlater⟩ := hnever
      have hstep := step_idle (Machine.nothingDue_of_not_requestDue hfirst) hhalted
      have hhalts : (start.pause interlude).step.2.machine.halted = true := by
        rw [hstep]
        exact hhalted
      rw [run_cons, ih hhalts hlater, hstep]
      rfl

/-- Until an interrupt routine is entered, a halted processor waits. -/
theorem run_waits {interludes : List (Interlude σ)} (hhalted : start.machine.halted = true)
    (hnever : ¬start.Meets interludes Machine.EntersInterrupt) :
    (start.run interludes).1 = List.replicate interludes.length 4 ∧
      start.machine.WaitedFrom (start.drops interludes) (start.run interludes).2.machine := by
  induction interludes generalizing start with
  | nil => exact ⟨rfl, .refl _⟩
  | cons interlude interludes ih =>
      rw [meets_cons, not_or] at hnever
      obtain ⟨hfirst, hlater⟩ := hnever
      have hwaits : (start.pause interlude).machine.Waits := ⟨hhalted, hfirst⟩
      obtain ⟨hstep, hcost⟩ := hwaits.step
      -- The devices act before the step, and that drops nothing.
      have hpassed := (start.machine.waitedFrom_withDevices interlude.devices).trans hstep
      rw [Nat.zero_add] at hpassed
      obtain ⟨hreturned, hrest⟩ := ih (hpassed.halted hhalted) hlater
      refine ⟨?_, hpassed.trans hrest⟩
      rw [run_cons, hreturned, List.length_cons, List.replicate_succ, ← hcost]
      rfl

/-- After a wait, an interrupt routine is entered from where the processor was halted. -/
theorem run_wakes {interludes : List (Interlude σ)} (hhalted : start.machine.halted = true)
    (hnever : ¬start.Meets interludes Machine.EntersInterrupt) (interlude : Interlude σ) :
    ((start.run interludes).2.pause interlude).machine.WakesFrom start.machine.registers.pc where
  pc := congrArg Registers.pc (run_waits hhalted hnever).2.registers
  nonMaskable := Machine.enters_nonMaskable
  maskable := Machine.enters_maskable

/-- How an emulator whose processor is halted waits, and how it got there. -/
structure WaitsForInterrupt (start : Emulator σ) : Prop where
  idles : start.machine.halted = true → ∀ interludes,
    ¬start.Meets interludes Machine.RequestDue →
    start.run interludes = (List.replicate interludes.length 4, start.idled interludes)
  drops : start.machine.halted = true → start.machine.MaskableDue →
    start.machine.interrupts.mode = .two →
    start.step = (4, start.dropped) ∧ start.step.2.machine.halted = true
  waits : start.machine.halted = true → ∀ interludes,
    ¬start.Meets interludes Machine.EntersInterrupt →
    (start.run interludes).1 = List.replicate interludes.length 4 ∧
      start.machine.WaitedFrom (start.drops interludes) (start.run interludes).2.machine
  leaves : start.machine.halted = true → ∀ interludes,
    (start.run interludes).2.machine.halted = false →
    start.Meets interludes Machine.EntersInterrupt
  wakes : start.machine.halted = true → ∀ interludes,
    ¬start.Meets interludes Machine.EntersInterrupt → ∀ interlude,
    ((start.run interludes).2.pause interlude).machine.WakesFrom start.machine.registers.pc
  /-- The processor is halted by an instruction, and when it wakes it goes on behind that. -/
  halts : start.machine.Executes → start.machine.read start.machine.registers.pc = 0x76 →
    start.step.2.machine.halted = true ∧ ∀ interludes,
      ¬start.step.2.Meets interludes Machine.EntersInterrupt → ∀ interlude,
      ((start.step.2.run interludes).2.pause interlude).machine.WakesFrom
        (start.machine.registers.pc + 1)

/-- A halted processor goes on by entering an interrupt routine and in no other way. -/
theorem waitsForInterrupt (start : Emulator σ) : start.WaitsForInterrupt where
  idles hhalted _ := run_idle hhalted
  drops hhalted hdue hmode := by
    rw [step_dropped hdue hmode]
    exact ⟨rfl, hhalted⟩
  waits hhalted _ := run_waits hhalted
  leaves hhalted interludes hrunning := by
    refine Classical.byContradiction fun hnever => ?_
    have hstill := (run_waits hhalted hnever).2.halted hhalted
    exact Bool.false_ne_true (hrunning.symm.trans hstill)
  wakes hhalted _ := run_wakes hhalted
  halts hexecutes hopcode := by
    obtain ⟨hhalted, hpc⟩ := Machine.step_halt hexecutes hopcode
    refine ⟨hhalted, fun interludes hnever interlude => ?_⟩
    rw [← hpc]
    exact run_wakes hhalted hnever interlude

end Emulator

end Z80
