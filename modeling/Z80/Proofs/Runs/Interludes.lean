import Z80.Emulator

/-!
# Runs with interludes

Between two steps of a run the devices may change their request lines and the bytes that they hold
ready, and the observer may change as well, as when it is told to want traces. `Emulator.run` yields
what its steps return together with the emulator after them, and `Emulator.Meets` says of what kind
some step of it is.
-/

namespace Z80

/-- What happens between two steps. -/
structure Interlude (σ : Type) where
  devices : Devices → Devices := id
  observer : σ → σ := id

/-- The machine after its devices have changed. -/
def Machine.withDevices (machine : Machine) (change : Devices → Devices) : Machine :=
  { machine with devices := change machine.devices }

namespace Emulator

variable {σ : Type}

/-- Lets an interlude pass. -/
def pause (emulator : Emulator σ) (interlude : Interlude σ) : Emulator σ :=
  { emulator with
    machine := emulator.machine.withDevices interlude.devices
    observer := interlude.observer emulator.observer }

variable [Observer σ]

/-- Takes a step after each interlude: what the steps return, and the emulator after them. -/
def run (emulator : Emulator σ) : List (Interlude σ) → List (BitVec 32) × Emulator σ
  | [] => ([], emulator)
  | interlude :: interludes =>
      let (cycles, next) := (emulator.pause interlude).step
      let (returned, final) := next.run interludes
      (cycles :: returned, final)

@[simp] theorem run_cons (emulator : Emulator σ) (interlude : Interlude σ)
    (interludes : List (Interlude σ)) :
    emulator.run (interlude :: interludes) =
      ((emulator.pause interlude).step.1 ::
          ((emulator.pause interlude).step.2.run interludes).1,
        ((emulator.pause interlude).step.2.run interludes).2) :=
  rfl

/-- Some step of a run is taken by a machine with a property. -/
def Meets (emulator : Emulator σ) (interludes : List (Interlude σ))
    (property : Machine → Prop) : Prop :=
  ∃ past interlude future, interludes = past ++ interlude :: future ∧
    property ((emulator.run past).2.pause interlude).machine

variable {emulator : Emulator σ} {property : Machine → Prop}

theorem not_meets_nil : ¬emulator.Meets [] property := by
  rintro ⟨past, interlude, future, hsplit, _⟩
  exact List.append_ne_nil_of_right_ne_nil past (List.cons_ne_nil interlude future) hsplit.symm

/-- The first step of a run is such a step, or a later one is. -/
theorem meets_cons {interlude : Interlude σ} {interludes : List (Interlude σ)} :
    emulator.Meets (interlude :: interludes) property ↔
      property (emulator.pause interlude).machine ∨
        (emulator.pause interlude).step.2.Meets interludes property := by
  constructor
  · rintro ⟨past, last, future, hsplit, hproperty⟩
    cases past with
    | nil =>
        obtain ⟨rfl, rfl⟩ := List.cons.inj hsplit
        exact .inl hproperty
    | cons first past =>
        obtain ⟨rfl, rfl⟩ := List.cons.inj hsplit
        exact .inr ⟨past, last, future, rfl, hproperty⟩
  · rintro (hproperty | ⟨past, last, future, rfl, hproperty⟩)
    · exact ⟨[], interlude, interludes, rfl, hproperty⟩
    · exact ⟨interlude :: past, last, future, rfl, hproperty⟩

end Emulator

end Z80
