import Z80.Emulator
import Z80.Observer.Recorder
import Z80.Proofs.Interrupts.Raising
import Z80.Proofs.Tracing.Step

/-!
# The traces of a run

With traces enabled and an observer that asks for them, the observer is told one trace for each
instruction that is executed, in order, and none besides (`Emulator.tracesFaithful`). Between the
steps of the run the machine may be changed in any way, as by a device that raises a request.
-/

namespace Z80

/-! ## What an observer is told -/

/-- Something that an observer is told. -/
inductive Report where
  | error (message : String)
  | debug (message : String)
  | instruction (trace : Trace)

namespace Report

/-- The trace that is told, if it is one. -/
def trace? : Report → Option Trace
  | .instruction trace => some trace
  | _ => none

/-- The report of an event, if the event is told at all. -/
def ofEvent? : Event → Option Report
  | .fault fault => some (.error fault.message)
  | .notice notice => some (.debug notice.message)
  | .executed trace => some (.instruction trace)
  | _ => none

theorem ofEvent?_bind_trace? (event : Event) : (ofEvent? event).bind trace? = event.executed? := by
  cases event <;> rfl

end Report

variable {σ : Type} [Observer σ]

/-- Tells an observer a report. -/
def Observer.tell (observer : σ) : Report → σ
  | .error message => Observer.error message observer
  | .debug message => Observer.debug message observer
  | .instruction trace => Observer.instruction trace observer

/-- Under this condition an observer asks for traces, and it goes on to whatever it is told. -/
structure Observer.Asking (asks : σ → Prop) : Prop where
  wants : ∀ observer, asks observer → Observer.wantsTraces observer = true
  lasting : ∀ observer report, asks observer → asks (Observer.tell observer report)

namespace Observer.Asking

variable {asks : σ → Prop}

theorem foldl_tell (hasking : Asking asks) (reports : List Report) {observer : σ}
    (hasks : asks observer) : asks (reports.foldl Observer.tell observer) := by
  induction reports generalizing observer with
  | nil => exact hasks
  | cons report reports ih => exact ih (hasking.lasting observer report hasks)

/-- An observer that asks is told every event that has a report. -/
theorem observe_eq (hasking : Asking asks) {observer : σ} (hasks : asks observer) (event : Event) :
    Observer.observe true observer event =
      (Report.ofEvent? event).elim observer (Observer.tell observer) := by
  cases event with
  | executed trace => exact if_pos (hasking.wants observer hasks)
  | _ => rfl

theorem foldl_observe (hasking : Asking asks) (events : List Event) {observer : σ}
    (hasks : asks observer) :
    events.foldl (Observer.observe true) observer =
      (events.filterMap Report.ofEvent?).foldl Observer.tell observer := by
  induction events generalizing observer with
  | nil => rfl
  | cons event events ih =>
      rw [List.foldl_cons, hasking.observe_eq hasks]
      cases hreport : Report.ofEvent? event with
      | none =>
          rw [List.filterMap_cons_none hreport]
          exact ih hasks
      | some report =>
          rw [List.filterMap_cons_some hreport]
          exact ih (hasking.lasting observer report hasks)

end Observer.Asking

/-- A recorder that is switched to want traces stays so. -/
theorem Observer.asking_recorder :
    Asking (fun recorder : Recorder => recorder.tracing = true) where
  wants := fun _ hasks => hasks
  lasting := by
    intro recorder report hasks
    cases report <;> exact hasks

/-! ## Runs -/

namespace Emulator

/-- Takes a step for each entry of a list, after changing the machine as the entry says. -/
def runChanging (emulator : Emulator σ) (changes : List (Machine → Machine)) : Emulator σ :=
  changes.foldl (fun emulator change => (emulator.modify change).step.2) emulator

end Emulator

/-- The traces that a run is to record: those of its steps, in order. -/
inductive Machine.RunTraces : Machine → List (Machine → Machine) → List Trace → Prop
  | nil (machine : Machine) : RunTraces machine [] []
  | cons {machine : Machine} {change : Machine → Machine} {changes : List (Machine → Machine)}
      {first rest : List Trace} (hfirst : (change machine).StepTraces first)
      (hrest : RunTraces (change machine).step changes rest) :
      RunTraces machine (change :: changes) (first ++ rest)

namespace Emulator

variable {asks : σ → Prop}

/-- In one step the observer is told the events that the log gains. -/
theorem step_eq_of_log {emulator : Emulator σ} {events : List Event}
    (hlog : emulator.machine.step.log.toList = emulator.machine.log.toList ++ events) :
    emulator.step =
      (emulator.machine.step.cycles.current,
        { emulator with
          machine := emulator.machine.step
          observer := events.foldl (Observer.observe emulator.config.traceInstructions)
            emulator.observer }) :=
  perform_eq_of_log hlog

/-- In one step the observer is told the traces that the step is to record. -/
theorem step_told (hasking : Observer.Asking asks) (emulator : Emulator σ)
    (henabled : emulator.config.traceInstructions = true) (hasks : asks emulator.observer) :
    ∃ reports : List Report, emulator.machine.StepTraces (reports.filterMap Report.trace?) ∧
      emulator.step.2.observer = reports.foldl Observer.tell emulator.observer := by
  obtain ⟨traces, htraces, events, hlog, rfl⟩ := emulator.machine.step_traces
  refine ⟨events.filterMap Report.ofEvent?, ?_, ?_⟩
  · rw [List.filterMap_filterMap, funext Report.ofEvent?_bind_trace?]
    exact htraces
  · rw [← hasking.foldl_observe events hasks, ← henabled, step_eq_of_log hlog]

/-- With traces enabled, an observer that asks for traces is told of a run exactly the traces that
its steps are to record, in order. -/
theorem tracesFaithful (hasking : Observer.Asking asks) (emulator : Emulator σ)
    (henabled : emulator.config.traceInstructions = true) (hasks : asks emulator.observer)
    (changes : List (Machine → Machine)) :
    ∃ reports : List Report, emulator.machine.RunTraces changes (reports.filterMap Report.trace?) ∧
      (emulator.runChanging changes).observer =
        reports.foldl Observer.tell emulator.observer := by
  induction changes generalizing emulator with
  | nil => exact ⟨[], .nil _, rfl⟩
  | cons change changes ih =>
      obtain ⟨first, hfirst, htold⟩ := step_told hasking (emulator.modify change) henabled hasks
      have hlasting := hasking.foldl_tell first hasks
      obtain ⟨rest, hrest, hrun⟩ := ih (emulator.modify change).step.2 henabled (htold ▸ hlasting)
      refine ⟨first ++ rest, ?_, ?_⟩
      · rw [List.filterMap_append]
        exact .cons hfirst hrest
      · rw [List.foldl_append]
        exact hrun.trans (congrArg (rest.foldl Observer.tell ·) htold)

/-- A recorder that wants traces, on a machine whose program has a bit test at an index register,
two bytes that select nothing, a store over its own opcode, a counted jump and a halt. -/
def tracedExample : Emulator Recorder where
  config := { traceInstructions := true }
  machine :=
    { memory := Memory.blank.load 0
        [0xDD, 0xCB, 0x05, 0x46, 0xED, 0x00, 0x32, 0x06, 0x00, 0x10, 0x00, 0x76] }
  observer := { tracing := true }

/-- Of seven steps, those that execute nothing leave no trace: the second, which finds no entry, the
sixth, which idles, and the seventh, which serves a request. -/
theorem tracesFaithful_of_recorder :
    Observer.Asking (fun recorder : Recorder => recorder.tracing = true) ∧
      tracedExample.config.traceInstructions = true ∧ tracedExample.observer.tracing = true ∧
      let changes := List.replicate 6 id ++ [(Machine.raise · { nonMaskable := true })]
      (∃ reports : List Report,
        tracedExample.machine.RunTraces changes (reports.filterMap Report.trace?) ∧
          (tracedExample.runChanging changes).observer =
            reports.foldl Observer.tell tracedExample.observer) ∧
        (tracedExample.runChanging changes).observer.transcript.traces.toList.map
            (fun trace => (trace.address, trace.opcodeText, trace.operandText, trace.description)) =
          [(0, "DD CB", "05 46", "20 cycles"), (6, "32", "06 00", "13 cycles"),
            (9, "10", "00", "dynamic cycles"), (11, "76", "", "4 cycles")] := by
  refine ⟨Observer.asking_recorder, rfl, rfl, ?_, ?_⟩
  · exact tracesFaithful Observer.asking_recorder tracedExample rfl rfl _
  · decide +kernel

end Emulator

end Z80
