import Z80.Proofs.Interrupts.Requests
import Z80.Proofs.Tracing.Execution
import Z80.Proofs.Tracing.Fetching
import Z80.Proofs.Tracing.Text

/-!
# The traces of a step

A step that executes an entry records one trace, which spells the bytes of the instruction as memory
held them when the step began (`Trace.Records`). Every other step records none. Both together are
`Machine.StepTraces`, and `Machine.step_traces` says that the log gains just those.
-/

namespace Z80

/-! ## The trace of an entry -/

/-- The trace tells truly of the entry that a machine is about to execute: where it stands, the
bytes that memory holds there, as many as the instruction is long, and the cycles that the step
yields. Cycles that are settled as the instruction executes are not told. -/
structure Trace.Records (trace : Trace) (machine : Machine) (entry : Entry) : Prop where
  address : trace.address = machine.registers.pc
  bytes : Hexadecimal.read? (trace.opcodeText ++ trace.operandText) =
    some (machine.memory.slice machine.registers.pc
      ((machine.memory.code machine.registers.pc).fullLength entry))
  short : 1 ≤ (machine.memory.code machine.registers.pc).fullLength entry ∧
    (machine.memory.code machine.registers.pc).fullLength entry ≤ 4
  name : trace.name = entry.name
  counted : entry.instruction.branchCost? = none →
    trace.description = toString machine.step.cycles.current.toNat ++ " cycles"
  uncounted : entry.instruction.branchCost?.isSome → trace.description = "dynamic cycles"

namespace Machine

/-- The traces that a step is to record, by what it does. -/
inductive StepTraces (machine : Machine) : List Trace → Prop
  /-- A request is served, or dropped. -/
  | served (hdue : ¬machine.NothingDue) : StepTraces machine []
  /-- The processor is halted and idles. -/
  | idle (hnothing : machine.NothingDue) (hhalted : machine.halted = true) : StepTraces machine []
  /-- The bytes at the program counter select no entry. -/
  | unhandled (hexecutes : machine.Executes)
      (hnone : machine.memory.entryAt? machine.registers.pc = none) : StepTraces machine []
  /-- The entry that they select is executed. -/
  | executed {entry : Entry} {trace : Trace} (hexecutes : machine.Executes)
      (hentry : machine.memory.entryAt? machine.registers.pc = some entry)
      (hrecords : trace.Records machine entry) : StepTraces machine [trace]

variable {machine : Machine}

/-- The machine when a step begins to read a code. -/
def begun (machine : Machine) : Machine :=
  { machine with cycles := machine.cycles.begin, operands := {} }

theorem begun_fetches :
    machine.begun.Fetches (machine.memory.code machine.registers.pc) machine.begun.fetchCode.2 := by
  have hfetches : machine.begun.Fetches machine.begun.fetchCode.1 machine.begun.fetchCode.2 :=
    fetchCode_fetches rfl
  rw [fetchCode_fst] at hfetches
  exact hfetches

theorem log_begun_fetchCode : machine.begun.fetchCode.2.log = machine.log :=
  begun_fetches.log

/-- The trace that a step records of an entry that it has performed. -/
def traceOf (machine : Machine) (entry : Entry) (performed : Machine) : Trace where
  address := machine.registers.pc
  opcode := (machine.memory.code machine.registers.pc).shownBytes
  operands := performed.operands.toList
  name := entry.name
  cost := entry.cost

/-- A step that executes what stands at the program counter, split at the selection of an entry. -/
theorem Executes.step_eq_elim (hexecutes : machine.Executes) :
    machine.step =
      (machine.memory.entryAt? machine.registers.pc).elim
        ((machine.begun.fetchCode.2.emit (.fault (.unhandledOpcode
          (machine.memory.code machine.registers.pc).bytes machine.registers.pc))).spend idleCost)
        fun entry =>
          (machine.begun.fetchCode.2.perform entry).emit (.executed
            (machine.traceOf entry (machine.begun.fetchCode.2.perform entry))) := by
  have hcode : machine.begun.fetchCode.1 = machine.memory.code machine.registers.pc :=
    fetchCode_fst machine.begun
  rw [hexecutes.step_eq]
  unfold executeNext Memory.entryAt? traceOf
  unfold begun at hcode ⊢
  generalize Machine.fetchCode _ = fetched at hcode ⊢
  obtain ⟨code, fetched⟩ := fetched
  obtain rfl : code = machine.memory.code machine.registers.pc := hcode
  cases hentry : Code.entry? (machine.memory.code machine.registers.pc) with
  | none => simp only [hentry, Option.elim_none]
  | some entry => simp only [hentry, Option.elim_some]

/-- Bytes that select no entry are reported as a fault. -/
theorem Executes.extends_of_none (hexecutes : machine.Executes)
    (hnone : machine.memory.entryAt? machine.registers.pc = none) :
    ExtendsBy machine.log machine.step.log [] := by
  rw [hexecutes.step_eq_elim, hnone]
  have hextends := (ExtendsBy.refl machine.log).push (.fault (.unhandledOpcode
    (machine.memory.code machine.registers.pc).bytes machine.registers.pc))
  rw [← log_begun_fetchCode] at hextends ⊢
  exact hextends

/-- The bytes that are shown as the opcode and the operands are those that spell the code and those
that the instruction reads. None of them is dropped. -/
theorem Fetches.shown_operands {code : Code} {entry : Entry} {fetched finish : Machine}
    (hfetches : machine.Fetches code fetched) (hentry : code.entry? = some entry)
    (hperforms : fetched.Performs entry finish) :
    code.shownBytes ++ finish.operands.toList =
      code.bytes ++ fetched.memory.slice fetched.registers.pc entry.instruction.operandCount := by
  have hroom : fetched.operands.toList.length + (fetched.memory.slice fetched.registers.pc
      entry.instruction.operandCount).length ≤ 4 := by
    rw [Memory.length_slice]
    exact hfetches.operands_fit hentry
  rw [hperforms.operands, OperandBytes.toList_recordAll_of_fits _ hroom, ← List.append_assoc,
    hfetches.shown]

/-- They stand in memory one behind the other. -/
theorem Fetches.slice_eq {code : Code} {entry : Entry} {fetched finish : Machine}
    (hfetches : machine.Fetches code fetched) (hentry : code.entry? = some entry)
    (hperforms : fetched.Performs entry finish) :
    code.shownBytes ++ finish.operands.toList =
      machine.memory.slice machine.registers.pc (code.fullLength entry) := by
  rw [hfetches.shown_operands hentry hperforms, hfetches.memory, hfetches.pc, Code.fullLength,
    Memory.slice_add, hfetches.spelled]

/-- A cost known from the opcode is what the step spends. -/
theorem Performs.current_eq {entry : Entry} {start finish : Machine}
    (hperforms : start.Performs entry finish) (hbegun : start.cycles.current = 0)
    {cycles : BitVec 32} (hcost : entry.cost = .fixed cycles) : finish.cycles.current = cycles := by
  obtain ⟨spent, hspends, hspent⟩ := hperforms.cycles
  cases hspends with
  | fixed hfixed =>
      obtain rfl : cycles = spent := Cost.fixed.inj (hcost.symm.trans hfixed)
      rw [hspent, Cycles.spend, hbegun]
      exact BitVec.zero_add _
  | chosen taken hdynamic hchosen => simp [hdynamic] at hcost

theorem traceOf_records {entry : Entry} {fetched performed : Machine}
    (hentry : machine.memory.entryAt? machine.registers.pc = some entry)
    (hfetches : machine.begun.Fetches (machine.memory.code machine.registers.pc) fetched)
    (hperforms : fetched.Performs entry performed)
    (hcycles : machine.step.cycles = performed.cycles) :
    (machine.traceOf entry performed).Records machine entry where
  address := rfl
  bytes := by
    rw [Trace.read_texts]
    exact congrArg some (hfetches.slice_eq hentry hperforms)
  short := Code.fullLength_bounds hentry
  name := rfl
  counted := by
    intro hnone
    have hbegun : fetched.cycles.current = 0 := congrArg Cycles.current hfetches.cycles
    cases hcost : entry.cost with
    | fixed cycles =>
        rw [hcycles, hperforms.current_eq hbegun hcost, Trace.description, traceOf, hcost]
        rfl
    | dynamic =>
        have hsome := (Code.declaresCost hentry).1 hcost
        simp [hnone] at hsome
  uncounted := by
    intro hsome
    rw [Trace.description, traceOf, (Code.declaresCost hentry).2 hsome]
    rfl

/-- The one trace of an entry that is executed. -/
theorem Executes.extends_traceOf (hexecutes : machine.Executes) {entry : Entry}
    (hentry : machine.memory.entryAt? machine.registers.pc = some entry) :
    ExtendsBy machine.log machine.step.log
      [machine.traceOf entry (machine.begun.fetchCode.2.perform entry)] := by
  have hperforms := machine.begun.fetchCode.2.perform_performs hentry
  have hextends := hperforms.log.push
    (.executed (machine.traceOf entry (machine.begun.fetchCode.2.perform entry)))
  rw [log_begun_fetchCode] at hextends
  rw [hexecutes.step_eq_elim, hentry, Option.elim_some]
  exact hextends

theorem Executes.extends_of_some (hexecutes : machine.Executes) {entry : Entry}
    (hentry : machine.memory.entryAt? machine.registers.pc = some entry) :
    ∃ trace : Trace, trace.Records machine entry ∧
      ExtendsBy machine.log machine.step.log [trace] := by
  have hperforms := machine.begun.fetchCode.2.perform_performs hentry
  have hcycles : machine.step.cycles = (machine.begun.fetchCode.2.perform entry).cycles := by
    rw [hexecutes.step_eq_elim, hentry, Option.elim_some]
    rfl
  exact ⟨_, traceOf_records hentry begun_fetches hperforms hcycles,
    hexecutes.extends_traceOf hentry⟩

/-! ## Steps that execute nothing -/

/-- A call for a request records no trace, nor does the notice before it. -/
theorem extends_of_call {prepared : Machine} {notice : Notice} {address : Word}
    (hstep : machine.step = (prepared.call address).spend interruptCost)
    (hprepared : prepared.log = machine.log.push (.notice notice)) :
    ExtendsBy machine.log machine.step.log [] := by
  have hnotice : ExtendsBy machine.log prepared.log [] := by
    rw [hprepared]
    exact (ExtendsBy.refl _).push _
  have hcall := ((Reading.refl prepared).toHasRead.call address).log
  rw [hstep]
  exact hnotice.trans hcall

theorem Executes.stepTraces (hexecutes : machine.Executes) :
    ∃ traces, machine.StepTraces traces ∧ ExtendsBy machine.log machine.step.log traces := by
  cases hentry : machine.memory.entryAt? machine.registers.pc with
  | none => exact ⟨[], .unhandled hexecutes hentry, hexecutes.extends_of_none hentry⟩
  | some entry =>
      obtain ⟨trace, hrecords, hextends⟩ := hexecutes.extends_of_some hentry
      exact ⟨[trace], .executed hexecutes hentry hrecords, hextends⟩

/-- The log of every step gains the traces that the step is to record. -/
theorem step_traces (machine : Machine) :
    ∃ traces, machine.StepTraces traces ∧ ExtendsBy machine.log machine.step.log traces := by
  cases machine.stepKind with
  | nonMaskable hraised =>
      refine ⟨[], .served fun hnothing => ?_, extends_of_call (step_nonMaskable hraised) rfl⟩
      exact Bool.false_ne_true (hnothing.noNonMaskable.symm.trans hraised)
  | served hdue hmode =>
      exact ⟨[], .served hdue.not_nothingDue,
        extends_of_call (step_maskable_of_served hdue hmode) rfl⟩
  | dropped hdue hmode =>
      refine ⟨[], .served hdue.not_nothingDue, ?_⟩
      rw [step_dropped hdue hmode]
      exact (ExtendsBy.refl _).push _
  | idle hnothing hhalted =>
      refine ⟨[], .idle hnothing hhalted, ?_⟩
      rw [step_idle hnothing hhalted]
      exact .refl _
  | executes hexecutes => exact hexecutes.stepTraces

end Machine

end Z80
