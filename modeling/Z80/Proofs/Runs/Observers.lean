import Z80.Observer.Journal
import Z80.Observer.Recorder
import Z80.Proofs.Likeness.Step
import Z80.Proofs.Runs.Interludes
import Z80.Proofs.Tracing.Step

/-!
# Observers do not matter

Two runs of the same machine return the same and do the same, whatever their observers are, whatever
those make of what they are told, and whether traces are enabled (`Emulator.unobservable`). Nor does
it matter what the logs held before: in the run they gain the same events. In such a run the
observer is called in the middle of a step, whenever the machine logs an event
(`Emulator.runsLive_iff`).
-/

namespace Z80

/-! ## Logs -/

/-- Two logs have gained the same events since they held what they did earlier. -/
def GainedAlike (before after : Array Event × Array Event) : Prop :=
  ∃ events, after.1.toList = before.1.toList ++ events ∧ after.2.toList = before.2.toList ++ events

theorem GainedAlike.push {before : Array Event × Array Event} {left right : Array Event}
    (hgained : GainedAlike before (left, right)) (event : Event) :
    GainedAlike before (left.push event, right.push event) := by
  obtain ⟨events, hleft, hright⟩ := hgained
  refine ⟨events ++ [event], ?_, ?_⟩
  · rw [Array.toList_push, hleft, List.append_assoc]
  · rw [Array.toList_push, hright, List.append_assoc]

/-- The likeness of machines that differ in what their logs held earlier. -/
def Likeness.logging (before : Array Event × Array Event) : Likeness :=
  { Likeness.same with
    logs := fun left right => GainedAlike before (left, right)
    logs_push := GainedAlike.push
    logs_served := by
      intro left right first second hgained hmode pc
      obtain rfl : first = second := hmode
      exact hgained.push _ }

/-- Two machines that differ in their logs at most. -/
structure Machine.SameButLog (left right : Machine) : Prop where
  cpu : right.toCpu = left.toCpu
  memory : right.memory = left.memory
  window : right.window = left.window
  devices : right.devices = left.devices

theorem Machine.SameButLog.logging {left right : Machine} (hsame : left.SameButLog right) :
    (Likeness.logging (left.log, right.log)).OfMachines left right := by
  have hlogs : GainedAlike (left.log, right.log) (left.log, right.log) :=
    ⟨[], (List.append_nil _).symm, (List.append_nil _).symm⟩
  obtain ⟨cpu, memory, window, devices, log⟩ := right
  obtain ⟨rfl, rfl, rfl, rfl⟩ := hsame
  exact .across left hlogs

theorem Likeness.OfMachines.sameButLog {before : Array Event × Array Event} {left right : Machine}
    (halike : (Likeness.logging before).OfMachines left right) : left.SameButLog right := by
  rw [halike.eq_of_exact Eq.symm halike.interrupts.mode.symm]
  exact ⟨rfl, rfl, rfl, rfl⟩

/-! ## Observers that are called at every event -/

namespace Emulator

variable {σ τ : Type} [Observer σ] [Observer τ]

/-- The emulator has taken a step, in which its observer was told of each event as it happened. -/
def StepsLive (emulator after : Emulator σ) : Prop :=
  emulator.PerformsLive (fun machine => (machine.step.cycles.current, machine.step)) after

theorem stepsLive_iff {emulator after : Emulator σ} :
    emulator.StepsLive after ↔ after = emulator.step.2 := by
  obtain ⟨_, _, events, hlog, _⟩ := emulator.machine.step_traces
  exact performsLive_iff hlog

/-- After each interlude the emulator has taken such a step: what the steps returned, and the
emulator after them. -/
inductive RunsLive : Emulator σ → List (Interlude σ) → List (BitVec 32) → Emulator σ → Prop
  | nil (emulator : Emulator σ) : RunsLive emulator [] [] emulator
  | cons {emulator next final : Emulator σ} {interlude : Interlude σ}
      {interludes : List (Interlude σ)} {returned : List (BitVec 32)}
      (hstep : (emulator.pause interlude).StepsLive next)
      (hrest : RunsLive next interludes returned final) :
      RunsLive emulator (interlude :: interludes) (next.machine.cycles.current :: returned) final

/-- The run is the one in which the observer is told after each step. -/
theorem runsLive_iff {emulator final : Emulator σ} {interludes : List (Interlude σ)}
    {returned : List (BitVec 32)} :
    emulator.RunsLive interludes returned final ↔ (returned, final) = emulator.run interludes := by
  constructor
  · intro hruns
    induction hruns with
    | nil => rfl
    | cons hstep _ ih =>
        obtain rfl := stepsLive_iff.1 hstep
        rw [run_cons, ← ih]
        rfl
  · intro hrun
    obtain ⟨rfl, rfl⟩ := Prod.mk.inj hrun
    induction interludes generalizing emulator with
    | nil => exact .nil emulator
    | cons interlude interludes ih => exact .cons (stepsLive_iff.2 rfl) (ih rfl)

/-! ## Runs -/

variable {first : Emulator σ} {second : Emulator τ} {interludes : List (Interlude σ)}
  {others : List (Interlude τ)}

/-- Two runs, with an observer in each that is told of every event as it happens, cannot be told
apart: their steps return the same, their machines end in the same state, and on the way they have
done the same. -/
structure RunAlike (first : Emulator σ) (second : Emulator τ) (interludes : List (Interlude σ))
    (others : List (Interlude τ)) : Prop where
  returned : (second.run others).1 = (first.run interludes).1
  state : (first.run interludes).2.machine.SameButLog (second.run others).2.machine
  events : GainedAlike (first.machine.log, second.machine.log)
    ((first.run interludes).2.machine.log, (second.run others).2.machine.log)
  live : first.RunsLive interludes (first.run interludes).1 (first.run interludes).2
  otherLive : second.RunsLive others (second.run others).1 (second.run others).2

/-- If two machines differ in their logs at most, and their devices do the same between the steps,
then the runs cannot be told apart at any point, whatever the settings and the observers are. -/
theorem unobservable (hsame : first.machine.SameButLog second.machine)
    (hdevices : others.map (·.devices) = interludes.map (·.devices)) (count : Nat) :
    RunAlike first second (interludes.take count) (others.take count) := by
  have htaken : (others.take count).map (·.devices) = (interludes.take count).map (·.devices) := by
    rw [List.map_take, List.map_take, hdevices]
  obtain ⟨hreturned, halike⟩ := hsame.logging.run rfl Eq.symm htaken
  exact ⟨hreturned, halike.sameButLog, halike.log, runsLive_iff.2 rfl, runsLive_iff.2 rfl⟩

/-- A recorder that is told traces and stops to want them, and a journal that is told none, on
machines whose logs differ from the beginning. The program enables interrupts, sends a byte and
stores one, and a request is served in between. -/
theorem unobservable_of_recorder :
    let machine : Machine :=
      { registers := { a := 0x42, sp := 0x9000 }
        memory := Memory.blank.load 0 [0xFB, 0xD3, 0x10, 0x32, 0x00, 0x80] }
    let first : Emulator Recorder :=
      { config := { traceInstructions := true }, machine, observer := { tracing := true } }
    let second : Emulator Journal :=
      { machine := { machine with log := #[.notice (.halted 0)] }
        observer := { threshold := some .error } }
    let raise (devices : Devices) := { devices with lines := devices.lines.raiseMaskable }
    let interludes : List (Interlude Recorder) :=
      [{}, {}, { devices := raise, observer := fun recorder => { recorder with tracing := false } },
        {}]
    let others : List (Interlude Journal) := [{}, {}, { devices := raise }, {}]
    first.machine.SameButLog second.machine ∧
      others.map (·.devices) = interludes.map (·.devices) ∧
      RunAlike first second interludes others ∧
      (first.run interludes).1 = [4, 11, 11, 4] ∧
      (first.run interludes).2.observer.transcript.traces.size = 2 ∧
      (second.run others).2.observer.records.size = 0 := by
  intro machine first second raise interludes others
  have hsame : first.machine.SameButLog second.machine := ⟨rfl, rfl, rfl, rfl⟩
  have hdevices : others.map (·.devices) = interludes.map (·.devices) := rfl
  refine ⟨hsame, hdevices, unobservable hsame hdevices 4, ?_, ?_, ?_⟩
  · decide +kernel
  · decide +kernel
  · decide +kernel

end Emulator

end Z80
