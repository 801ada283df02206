import Z80.Observer.Recorder
import Z80.Proofs.Likeness.Step

/-!
# The undocumented flags do not matter

Bits 3 and 5 of the flags are set by many instructions and looked at by none. Only `PUSH AF` lets
them out, since it writes the flags as a byte. So two emulators that differ in those bits alone, in
the main bank or in its shadow, do the same and differ in nothing else, as long as they do not
execute it (`Emulator.hidesUndocumented`).
-/

namespace Z80

/-! ## Forgetting the undocumented flags -/

/-- The bank with the undocumented flags cleared. -/
def Bank.documented (bank : Bank) : Bank :=
  { bank with flags := bank.flags.documented }

/-- The registers with the undocumented flags cleared, those of the shadow included. -/
def Registers.documented (registers : Registers) : Registers :=
  { registers with
    toBank := registers.toBank.documented
    shadow := registers.shadow.documented }

/-- The machine with the undocumented flags cleared. -/
def Machine.documented (machine : Machine) : Machine :=
  { machine with registers := machine.registers.documented }

namespace Likeness

/-- The likeness of machines that differ in undocumented flags at most. -/
def undocumented : Likeness :=
  { same with
    flags := fun left right => right.documented = left.documented
    flags_refl := fun _ => rfl
    flags_documented := id }

theorem ofBanks_undocumented_iff {left right : Bank} :
    undocumented.OfBanks left right ↔ right.documented = left.documented := by
  constructor
  · rintro ⟨ha, hflags, hbc, hde, hhl⟩
    have hflags : right.flags.documented = left.flags.documented := hflags
    rw [Bank.documented, Bank.documented, ha, hflags, hbc, hde, hhl]
  · intro hsame
    obtain ⟨ha, hflags, hbc, hde, hhl⟩ := Bank.mk.inj hsame
    exact ⟨ha, hflags, hbc, hde, hhl⟩

theorem ofRegisters_undocumented_iff {left right : Registers} :
    undocumented.OfRegisters left right ↔ right.documented = left.documented := by
  constructor
  · rintro ⟨hbank, hshadow, hindex, hsp, hpc, hi, hr⟩
    have hix : right.ix = left.ix := hindex .ix
    have hiy : right.iy = left.iy := hindex .iy
    rw [Registers.documented, Registers.documented, ofBanks_undocumented_iff.1 hbank,
      ofBanks_undocumented_iff.1 hshadow, hix, hiy, hsp, hpc, hi, hr]
  · intro hsame
    obtain ⟨hbank, hshadow, hix, hiy, hsp, hpc, hi, hr⟩ := Registers.mk.inj hsame
    exact
      { toOfBanks := ofBanks_undocumented_iff.2 hbank
        shadow := ofBanks_undocumented_iff.2 hshadow
        index := by
          intro index
          cases index with
          | ix => exact hix
          | iy => exact hiy
        sp := hsp
        pc := hpc
        i := hi
        r := hr }

theorem ofMachines_undocumented_iff {left right : Machine} :
    undocumented.OfMachines left right ↔ right.documented = left.documented := by
  constructor
  · intro halike
    have hregisters := ofRegisters_undocumented_iff.1 halike.registers
    have hinterrupts : right.interrupts = left.interrupts :=
      halike.interrupts.eq_of_mode halike.interrupts.mode.symm
    have hlog : right.log = left.log := halike.log.symm
    rw [Machine.documented, Machine.documented, hregisters, hinterrupts, halike.halted,
      halike.cycles, halike.operands, halike.memory, halike.window, halike.devices, hlog]
  · intro hsame
    obtain ⟨hcpu, hmemory, hwindow, hdevices, hlog⟩ := Machine.mk.inj hsame
    obtain ⟨hregisters, hinterrupts, hhalted, hcycles, hoperands⟩ := Cpu.mk.inj hcpu
    exact
      { registers := ofRegisters_undocumented_iff.2 hregisters
        interrupts := by
          rw [hinterrupts]
          exact ⟨rfl, rfl, rfl⟩
        halted := hhalted
        cycles := hcycles
        operands := hoperands
        memory := hmemory
        window := hwindow
        devices := hdevices
        log := hlog.symm }

end Likeness

/-! ## Reading the flags as a byte -/

theorem spelledBy_readsFlags :
    SpelledBy (fun instruction => .pair .af ∈ instruction.wordSources) [0xF5] [] where
  plain := by decide +kernel
  extended := by decide +kernel
  indexed := by
    intro index
    cases index <;> decide +kernel
  bits := by
    intro opcode target copy
    unfold Page.bitInstruction
    split <;> exact List.not_mem_nil

namespace Machine

/-- The step executes `PUSH AF`. -/
def PushesFlags (machine : Machine) : Prop :=
  machine.Executes ∧ machine.read machine.registers.pc = 0xF5

variable {machine left right : Machine}

theorem readsFlags_iff : machine.ReadsFlags ↔ machine.PushesFlags := by
  have hspelled := spelledBy_readsFlags.entryAt_iff machine.memory machine.registers.pc
  simp only [List.not_mem_nil, and_false, or_false, List.mem_singleton] at hspelled
  exact and_congr_right fun _ => hspelled

/-- Any other step leads machines that differ in undocumented flags at most to such machines. -/
theorem documented_step (hsame : right.documented = left.documented)
    (hpushes : ¬left.PushesFlags) : right.step.documented = left.step.documented := by
  have halike := Likeness.ofMachines_undocumented_iff.2 hsame
  refine Likeness.ofMachines_undocumented_iff.1 (halike.step rfl fun hreads => ?_)
  exact absurd (readsFlags_iff.1 hreads) hpushes

end Machine

/-! ## Emulators -/

namespace Emulator

variable {σ : Type} [Observer σ] {first second : Emulator σ}

omit [Observer σ] in
/-- The emulator with the undocumented flags of its machine cleared. -/
def documented (emulator : Emulator σ) : Emulator σ :=
  emulator.modify Machine.documented

/-- What the observer is told in a step can be read off the machines before and after it. -/
theorem step_eq (emulator : Emulator σ) :
    emulator.step =
      (emulator.machine.step.cycles.current,
        { emulator with
          machine := emulator.machine.step
          observer := (emulator.machine.step.log.extract emulator.machine.log.size).foldl
            (Observer.observe emulator.config.traceInstructions) emulator.observer }) :=
  rfl

/-- The same holds of emulators, whose observers are told the same. -/
theorem documented_step (hsame : second.documented = first.documented)
    (hpushes : ¬first.machine.PushesFlags) :
    second.step.1 = first.step.1 ∧ second.step.2.documented = first.step.2.documented := by
  obtain ⟨hconfig, hmachine, hobserver⟩ := Emulator.mk.inj hsame
  have hstep := Machine.documented_step hmachine hpushes
  have hbefore := Likeness.ofMachines_undocumented_iff.2 hmachine
  have hafter := Likeness.ofMachines_undocumented_iff.2 hstep
  have hlog : second.machine.log = first.machine.log := hbefore.log.symm
  have hgained : second.machine.step.log = first.machine.step.log := hafter.log.symm
  -- The observers are told by how much the logs have grown, and these are the same all along.
  constructor
  · exact congrArg Cycles.current hafter.cycles
  · rw [step_eq, step_eq, documented, documented, modify, modify, hstep, hgained, hlog, hconfig,
      hobserver]

theorem documented_run {interludes : List (Interlude σ)}
    (hsame : second.documented = first.documented)
    (hpushes : ¬first.Meets interludes Machine.PushesFlags) :
    (second.run interludes).1 = (first.run interludes).1 ∧
      (second.run interludes).2.documented = (first.run interludes).2.documented := by
  induction interludes generalizing first second with
  | nil => exact ⟨rfl, hsame⟩
  | cons interlude interludes ih =>
      rw [meets_cons, not_or] at hpushes
      obtain ⟨hnow, hlater⟩ := hpushes
      have hpaused : (second.pause interlude).documented = (first.pause interlude).documented :=
        congrArg (pause · interlude) hsame
      obtain ⟨hreturned, hstep⟩ := documented_step hpaused hnow
      obtain ⟨hrest, hfinal⟩ := ih hstep hlater
      rw [run_cons, run_cons, hreturned, hrest]
      exact ⟨rfl, hfinal⟩

/-- Two emulators return the same and stay the same but for undocumented flags, in every step and
every run that does not execute `PUSH AF`. -/
structure HidesUndocumented (first second : Emulator σ) : Prop where
  step : ¬first.machine.PushesFlags →
    second.step.1 = first.step.1 ∧ second.step.2.documented = first.step.2.documented
  run : ∀ interludes, ¬first.Meets interludes Machine.PushesFlags →
    (second.run interludes).1 = (first.run interludes).1 ∧
      (second.run interludes).2.documented = (first.run interludes).2.documented

/-- Emulators that are the same but for undocumented flags cannot be told apart otherwise. -/
theorem hidesUndocumented (hsame : second.documented = first.documented) :
    HidesUndocumented first second where
  step := documented_step hsame
  run _ := documented_run hsame

/-- One machine has undocumented flags set, some of them in the shadow. The program adjusts the
accumulator, exchanges it, tests a bit and branches. -/
theorem hidesUndocumented_of_bits :
    let machine : Machine :=
      { registers := { a := 0x1B, sp := 0x9000 }
        memory := Memory.blank.load 0 [0x27, 0x08, 0xCB, 0x47, 0x28, 0x00] }
    let marked : Machine :=
      { machine with
        registers := { machine.registers with
          flags := { x := true, y := true }
          shadow := { flags := { x := true } } } }
    let first : Emulator Recorder := { machine, observer := {} }
    let second : Emulator Recorder := { machine := marked, observer := {} }
    let interludes : List (Interlude Recorder) := [{}, {}, {}, {}]
    second.documented = first.documented ∧ HidesUndocumented first second ∧ second ≠ first ∧
      ¬first.Meets interludes Machine.PushesFlags ∧
      (first.run interludes).1 = [4, 4, 8, 12] := by
  intro machine marked first second interludes
  refine ⟨rfl, hidesUndocumented rfl, ?_, ?_, ?_⟩
  · intro hsame
    have hflags : second.machine.registers.flags.x = first.machine.registers.flags.x := by
      rw [hsame]
    exact Bool.false_ne_true hflags.symm
  · simp only [interludes, meets_cons, not_meets_nil, or_false, not_or]
    refine ⟨?_, ?_, ?_, ?_⟩ <;> exact fun hpushes => absurd hpushes.2 (by decide +kernel)
  · decide +kernel

end Emulator

end Z80
