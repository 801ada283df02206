import Z80.Proofs.Likeness.Execution
import Z80.Proofs.Runs.Interludes
import Z80.Proofs.Tracing.Step

/-!
# Steps and runs of machines that are alike

Machines that are alike read the same code, serve the same requests and are alike after the step
(`OfMachines.step`). The names of their index registers must not be exchanged for that, since both
read the same program. So runs of machines that are alike return the same (`OfMachines.run`).
-/

namespace Z80

/-- The step executes an instruction that reads the flags as a byte. -/
def Machine.ReadsFlags (machine : Machine) : Prop :=
  machine.Executes ∧ ∃ entry ∈ machine.memory.entryAt? machine.registers.pc,
    .pair .af ∈ entry.instruction.wordSources

namespace Likeness.OfMachines

variable {likeness : Likeness} {left right : Machine}

/-! ## Reading the code -/

/-- A choice between two results that both machines make in the same way. -/
theorem ite_results {α : Type} (condition : Prop) [Decidable condition]
    {left right leftOther rightOther : α × Machine} (htrue : likeness.OfResults left right)
    (hfalse : likeness.OfResults leftOther rightOther) :
    likeness.OfResults (if condition then left else leftOther)
      (if condition then right else rightOther) := by
  split
  · exact htrue
  · exact hfalse

theorem fetchRefreshed (halike : likeness.OfMachines left right) (count : Byte) :
    likeness.OfResults (left.update (·.refresh count)).fetch
      (right.update (·.refresh count)).fetch :=
  (halike.withRegisters (halike.registers.refresh count)).fetch

theorem fetchOpcode (halike : likeness.OfMachines left right) (page : Page) :
    likeness.OfResults (left.fetchOpcode page) (right.fetchOpcode page) := by
  have hfetched := halike.fetchRefreshed 2
  simp only [Machine.fetchOpcode, hfetched.result]
  exact ⟨rfl, hfetched.machine⟩

theorem fetchIndexedOpcode (halike : likeness.OfMachines left right) (index : Index) :
    likeness.OfResults (left.fetchIndexedOpcode index) (right.fetchIndexedOpcode index) := by
  have hfetched := halike.fetchRefreshed 2
  have hdisplacement := hfetched.machine.fetchOperand
  have hopcode := hdisplacement.machine.fetchOperand
  simp only [Machine.fetchIndexedOpcode, hfetched.result, hdisplacement.result, hopcode.result]
  exact ite_results _ ⟨rfl, hopcode.machine⟩ ⟨rfl, hfetched.machine⟩

theorem fetchCode (halike : likeness.OfMachines left right) :
    likeness.OfResults left.fetchCode right.fetchCode := by
  have hfirst := halike.fetch
  have hrefreshed := hfirst.machine.withRegisters (hfirst.machine.registers.refresh 1)
  simp only [Machine.fetchCode, hfirst.result]
  refine ite_results _ (hfirst.machine.fetchOpcode .bits) ?_
  refine ite_results _ (hfirst.machine.fetchOpcode .extended) ?_
  refine ite_results _ (hfirst.machine.fetchIndexedOpcode .ix) ?_
  refine ite_results _ (hfirst.machine.fetchIndexedOpcode .iy) ?_
  exact ⟨rfl, hrefreshed⟩

/-! ## Which step it is -/

theorem nonMaskable (halike : likeness.OfMachines left right) :
    right.devices.lines.nonMaskable = left.devices.lines.nonMaskable :=
  congrArg (·.lines.nonMaskable) halike.devices

theorem maskable (halike : likeness.OfMachines left right) :
    right.devices.lines.maskable = left.devices.lines.maskable :=
  congrArg (·.lines.maskable) halike.devices

theorem maskableDue (halike : likeness.OfMachines left right) (hdue : left.MaskableDue) :
    right.MaskableDue where
  noNonMaskable := halike.nonMaskable.trans hdue.noNonMaskable
  enabled := halike.interrupts.iff1.trans hdue.enabled
  raised := halike.maskable.trans hdue.raised

theorem nothingDue (halike : likeness.OfMachines left right) (hnothing : left.NothingDue) :
    right.NothingDue where
  noNonMaskable := halike.nonMaskable.trans hnothing.noNonMaskable
  noMaskable := by
    rw [halike.interrupts.iff1, halike.maskable]
    exact hnothing.noMaskable

theorem executes_iff (halike : likeness.OfMachines left right) :
    right.Executes ↔ left.Executes := by
  constructor
  · rintro ⟨hrunning, hnonMaskable, hmaskable⟩
    rw [halike.interrupts.iff1, halike.maskable] at hmaskable
    exact ⟨halike.halted.symm.trans hrunning, halike.nonMaskable.symm.trans hnonMaskable, hmaskable⟩
  · intro hexecutes
    have hnothing := halike.nothingDue hexecutes.nothingDue
    exact hnothing.executes (halike.halted.trans hexecutes.running)

theorem entryAt (halike : likeness.OfMachines left right) :
    right.memory.entryAt? right.registers.pc = left.memory.entryAt? left.registers.pc := by
  rw [halike.memory, halike.registers.pc]

/-! ## Steps that serve a request -/

theorem step_of_nonMaskable (halike : likeness.OfMachines left right)
    (hraised : left.devices.lines.nonMaskable = true) :
    likeness.OfMachines left.step right.step := by
  rw [Machine.step_nonMaskable hraised,
    Machine.step_nonMaskable (halike.nonMaskable.trans hraised), halike.registers.pc]
  refine (call ?_ _).spend _
  exact
    { halike with
      interrupts := halike.interrupts.suspend
      halted := rfl
      cycles := congrArg Cycles.begin halike.cycles
      devices := by rw [halike.devices]
      log := likeness.logs_push halike.log _ }

theorem step_of_dropped (halike : likeness.OfMachines left right) (hdue : left.MaskableDue)
    (hmode : left.interrupts.mode = .two) : likeness.OfMachines left.step right.step := by
  rw [Machine.step_dropped hdue hmode, Machine.step_dropped (halike.maskableDue hdue)
    ((likeness.modes_two halike.interrupts.mode).1 hmode), halike.registers.pc]
  exact
    { halike with
      cycles := congrArg (·.begin.spend 4) halike.cycles
      devices := by rw [halike.devices]
      log := likeness.logs_push halike.log _ }

theorem step_of_served (halike : likeness.OfMachines left right) (hdue : left.MaskableDue)
    (hmode : left.interrupts.mode ≠ .two) : likeness.OfMachines left.step right.step := by
  have hother : right.interrupts.mode ≠ .two :=
    mt (likeness.modes_two halike.interrupts.mode).2 hmode
  rw [Machine.step_maskable_of_served hdue hmode,
    Machine.step_maskable_of_served (halike.maskableDue hdue) hother, halike.registers.pc]
  refine (call ?_ _).spend _
  exact
    { halike with
      interrupts := halike.interrupts.disable
      halted := rfl
      cycles := congrArg Cycles.begin halike.cycles
      devices := by rw [halike.devices]
      log := likeness.logs_served halike.log halike.interrupts.mode _ }

/-! ## Steps that serve none -/

theorem step_of_halted (halike : likeness.OfMachines left right) (hnothing : left.NothingDue)
    (hhalted : left.halted = true) : likeness.OfMachines left.step right.step := by
  rw [Machine.step_idle hnothing hhalted,
    Machine.step_idle (halike.nothingDue hnothing) (halike.halted.trans hhalted)]
  exact { halike with cycles := congrArg (·.begin.spend 4) halike.cycles }

theorem begun (halike : likeness.OfMachines left right) :
    likeness.OfMachines left.begun right.begun :=
  { halike with cycles := congrArg Cycles.begin halike.cycles, operands := rfl }

theorem traceOf (halike : likeness.OfMachines left right) (entry : Entry)
    {first second : Machine} (hperformed : likeness.OfMachines first second) :
    right.traceOf entry second = left.traceOf entry first := by
  unfold Machine.traceOf
  rw [halike.memory, halike.registers.pc, hperformed.operands]

theorem step_of_executes (halike : likeness.OfMachines left right)
    (hsame : likeness.swapped = false) (hexecutes : left.Executes)
    (hexact : left.ReadsFlags → likeness.Exact) :
    likeness.OfMachines left.step right.step := by
  have hother := halike.executes_iff.2 hexecutes
  have hfetched := halike.begun.fetchCode.machine
  rw [hexecutes.step_eq_elim, hother.step_eq_elim, halike.entryAt]
  cases hentry : left.memory.entryAt? left.registers.pc with
  | none =>
      rw [halike.memory, halike.registers.pc]
      exact (hfetched.emit _).spend _
  | some entry =>
      have hinstruction : entry.instruction = entry.instruction.across likeness.swapped := by
        rw [hsame, Instruction.across_false]
      have hperformed := hfetched.perform hinstruction rfl
        fun hsource => hexact ⟨hexecutes, entry, hentry, hsource⟩
      rw [Option.elim_some, Option.elim_some, halike.traceOf entry hperformed]
      exact hperformed.emit _

/-- A step keeps machines alike, unless it reads flags as a byte that need not be the same. -/
theorem step (halike : likeness.OfMachines left right) (hsame : likeness.swapped = false)
    (hexact : left.ReadsFlags → likeness.Exact) : likeness.OfMachines left.step right.step := by
  cases left.stepKind with
  | nonMaskable hraised => exact halike.step_of_nonMaskable hraised
  | served hdue hmode => exact halike.step_of_served hdue hmode
  | dropped hdue hmode => exact halike.step_of_dropped hdue hmode
  | idle hnothing hhalted => exact halike.step_of_halted hnothing hhalted
  | executes hexecutes => exact halike.step_of_executes hsame hexecutes hexact

/-! ## Runs -/

theorem withDevices (halike : likeness.OfMachines left right) (change : Devices → Devices) :
    likeness.OfMachines (left.withDevices change) (right.withDevices change) :=
  { halike with devices := congrArg change halike.devices }

section Runs

variable {σ τ : Type} [Observer σ] [Observer τ] {first : Emulator σ} {second : Emulator τ}
  {interludes : List (Interlude σ)} {others : List (Interlude τ)}

omit [Observer σ] [Observer τ] in
/-- The devices do the same to both machines before their next steps. -/
theorem pause (halike : likeness.OfMachines first.machine second.machine)
    {interlude : Interlude σ} {other : Interlude τ} (hdevice : other.devices = interlude.devices) :
    likeness.OfMachines (first.pause interlude).machine (second.pause other).machine := by
  simp only [Emulator.pause, hdevice]
  exact halike.withDevices interlude.devices

/-- Where flags are alike only if they are the same, a run keeps machines alike, provided that the
devices do the same between the steps. -/
theorem run (hsame : likeness.swapped = false) (hexact : likeness.Exact)
    (halike : likeness.OfMachines first.machine second.machine)
    (hdevices : others.map (·.devices) = interludes.map (·.devices)) :
    (second.run others).1 = (first.run interludes).1 ∧
      likeness.OfMachines (first.run interludes).2.machine (second.run others).2.machine := by
  induction interludes generalizing first second others with
  | nil =>
      obtain rfl : others = [] := List.map_eq_nil_iff.1 hdevices
      exact ⟨rfl, halike⟩
  | cons interlude interludes ih =>
      obtain ⟨other, rest, rfl, hdevice, hrest⟩ := List.map_eq_cons_iff.1 hdevices
      have hstep : likeness.OfMachines (first.pause interlude).step.2.machine
          (second.pause other).step.2.machine :=
        (halike.pause hdevice).step hsame fun _ => hexact
      have hreturned : (second.pause other).step.1 = (first.pause interlude).step.1 :=
        congrArg Cycles.current hstep.cycles
      obtain ⟨hlater, hfinal⟩ := ih hstep hrest
      rw [Emulator.run_cons, Emulator.run_cons, hreturned, hlater]
      exact ⟨rfl, hfinal⟩

end Runs

end Likeness.OfMachines

end Z80
