import Z80.Machine.Step
import Z80.Observer

/-!
# The emulator

A machine with its configuration and an observer. The machine acts first, and then the observer is
told what is new in the machine's log; so what the machine does depends neither on the observer nor
on whether traces are enabled (`machine_perform`). It makes no difference to the observer whether it
is told so, or of every event at the moment when the machine logs it (`performsLive_iff`).
-/

namespace Z80

/-- The settings of an emulator. -/
structure Config where
  initialStackPointer : Word := 0xDFF0
  traceInstructions : Bool := false
deriving DecidableEq, Inhabited

/-- A machine under observation. -/
structure Emulator (σ : Type) where
  config : Config := {}
  machine : Machine
  observer : σ

namespace Emulator

variable {σ α : Type}

/-- An emulator whose processor is in its reset state. -/
def create (config : Config) (machine : Machine) (observer : σ) : Emulator σ where
  config := config
  machine := machine.reset config.initialStackPointer
  observer := observer

/-- Changes the machine without telling the observer. -/
def modify (emulator : Emulator σ) (change : Machine → Machine) : Emulator σ :=
  { emulator with machine := change emulator.machine }

/-- Puts the processor into its reset state. -/
def reset (emulator : Emulator σ) : Emulator σ :=
  emulator.modify (·.reset emulator.config.initialStackPointer)

variable [Observer σ]

/-- Lets the machine act and tells the observer what is new in its log. -/
def perform (emulator : Emulator σ) (action : Machine → α × Machine) : α × Emulator σ :=
  let seen := emulator.machine.log.size
  let (result, machine) := action emulator.machine
  let observer := (machine.log.extract seen).foldl
    (Observer.observe emulator.config.traceInstructions) emulator.observer
  (result, { emulator with machine, observer })

@[simp] theorem machine_perform (emulator : Emulator σ) (action : Machine → α × Machine) :
    (emulator.perform action).2.machine = (action emulator.machine).2 :=
  rfl

/-- Takes one step and yields its cycles. -/
def step (emulator : Emulator σ) : BitVec 32 × Emulator σ :=
  emulator.perform fun machine =>
    let machine := machine.step
    (machine.cycles.current, machine)

@[simp] theorem machine_step (emulator : Emulator σ) :
    emulator.step.2.machine = emulator.machine.step :=
  rfl

end Emulator

/-! ## Telling of events as they happen -/

variable {σ α : Type} [Observer σ]

/-- While a log grows, an observer is told of each event at the moment when it is logged. -/
inductive Observer.Follows (tracesEnabled : Bool) (log : Array Event) (observer : σ) :
    Array Event → σ → Prop
  | begins : Follows tracesEnabled log observer log observer
  | told {later : Array Event} {now : σ} (hfollows : Follows tracesEnabled log observer later now)
      (event : Event) :
      Follows tracesEnabled log observer (later.push event)
        (Observer.observe tracesEnabled now event)

namespace Observer.Follows

variable {tracesEnabled : Bool} {log later : Array Event} {observer now : σ} {events : List Event}

/-- The observer has been told of the events that the log has gained, in their order. -/
theorem exists_events (hfollows : Follows tracesEnabled log observer later now) :
    ∃ events, later.toList = log.toList ++ events ∧
      now = events.foldl (Observer.observe tracesEnabled) observer := by
  induction hfollows with
  | begins => exact ⟨[], (List.append_nil _).symm, rfl⟩
  | told _ event ih =>
      obtain ⟨events, hlater, rfl⟩ := ih
      refine ⟨events ++ [event], ?_, ?_⟩
      · rw [Array.toList_push, hlater, List.append_assoc]
      · rw [List.foldl_append]
        rfl

theorem trans {between : Array Event} {middle : σ}
    (hfirst : Follows tracesEnabled log observer between middle)
    (hsecond : Follows tracesEnabled between middle later now) :
    Follows tracesEnabled log observer later now := by
  induction hsecond with
  | begins => exact hfirst
  | told _ event ih => exact ih.told event

/-- It can follow every log that gains events. -/
theorem of_events (hlater : later.toList = log.toList ++ events) :
    Follows tracesEnabled log observer later
      (events.foldl (Observer.observe tracesEnabled) observer) := by
  induction events generalizing log observer with
  | nil =>
      obtain rfl : later = log := Array.toList_inj.1 (hlater.trans (List.append_nil _))
      exact .begins
  | cons event events ih =>
      have hrest : later.toList = (log.push event).toList ++ events := by
        rw [hlater, Array.toList_push, List.append_assoc]
        rfl
      exact (begins.told event).trans (ih hrest)

end Observer.Follows

namespace Emulator

/-- The events that a log has beyond the size of an earlier one. -/
theorem toList_extract_size {before after : Array Event} {events : List Event}
    (hafter : after.toList = before.toList ++ events) :
    (after.extract before.size).toList = events := by
  have hsize : after.size - before.size = events.length := by
    rw [← Array.length_toList, hafter, List.length_append]
    exact Nat.add_sub_cancel_left ..
  rw [Array.toList_extract, hafter, List.extract_eq_take_drop, hsize]
  simp

/-- What the machine does if it logs some events meanwhile. -/
theorem perform_eq_of_log {emulator : Emulator σ} {action : Machine → α × Machine}
    {events : List Event}
    (hlog : (action emulator.machine).2.log.toList = emulator.machine.log.toList ++ events) :
    emulator.perform action =
      ((action emulator.machine).1,
        { emulator with
          machine := (action emulator.machine).2
          observer := events.foldl (Observer.observe emulator.config.traceInstructions)
            emulator.observer }) := by
  rw [← toList_extract_size hlog, Array.foldl_toList]
  rfl

/-- The machine has acted, and meanwhile the observer has been told of every event that it logged at
the moment when it did. -/
structure PerformsLive (emulator : Emulator σ) (action : Machine → α × Machine)
    (after : Emulator σ) : Prop where
  config : after.config = emulator.config
  machine : after.machine = (action emulator.machine).2
  observer : Observer.Follows emulator.config.traceInstructions emulator.machine.log
    emulator.observer after.machine.log after.observer

/-- For an action that logs events and takes none back, this comes to the same as telling the
observer of all of them at the end. -/
theorem performsLive_iff {emulator after : Emulator σ} {action : Machine → α × Machine}
    {events : List Event}
    (hlog : (action emulator.machine).2.log.toList = emulator.machine.log.toList ++ events) :
    emulator.PerformsLive action after ↔ after = (emulator.perform action).2 := by
  rw [perform_eq_of_log hlog]
  constructor
  · rintro ⟨hconfig, hmachine, hfollows⟩
    obtain ⟨others, hothers, hobserver⟩ := hfollows.exists_events
    rw [hmachine] at hothers
    obtain rfl : others = events := List.append_cancel_left (hothers.symm.trans hlog)
    obtain ⟨config, machine, observer⟩ := after
    obtain rfl : config = emulator.config := hconfig
    obtain rfl : machine = (action emulator.machine).2 := hmachine
    obtain rfl : observer = _ := hobserver
    rfl
  · rintro rfl
    exact ⟨rfl, rfl, .of_events hlog⟩

end Emulator

end Z80
