import Z80.Machine.Step

/-!
# Runs with devices

Between the steps of a run the devices may raise their request lines. A list says which lines they
raise before each step, so that its length is the number of steps.
-/

namespace Z80.Machine

/-- Lets the devices raise request lines. A line that is raised already stays so. -/
def raise (machine : Machine) (raised : Lines) : Machine :=
  machine.updateLines fun lines =>
    { maskable := lines.maskable || raised.maskable
      nonMaskable := lines.nonMaskable || raised.nonMaskable }

@[simp] theorem maskable_raise (machine : Machine) (raised : Lines) :
    (machine.raise raised).devices.lines.maskable =
      (machine.devices.lines.maskable || raised.maskable) :=
  rfl

@[simp] theorem nonMaskable_raise (machine : Machine) (raised : Lines) :
    (machine.raise raised).devices.lines.nonMaskable =
      (machine.devices.lines.nonMaskable || raised.nonMaskable) :=
  rfl

/-- Devices that raise nothing change nothing. -/
@[simp] theorem raise_none (machine : Machine) : machine.raise {} = machine := by
  simp [raise, updateLines]

/-- Takes a step for each entry of a list. Before each step the devices raise the lines of its
entry. -/
def runRaising (machine : Machine) (raises : List Lines) : Machine :=
  raises.foldl (fun machine raised => (machine.raise raised).step) machine

@[simp] theorem runRaising_nil (machine : Machine) : machine.runRaising [] = machine :=
  rfl

@[simp] theorem runRaising_cons (machine : Machine) (raised : Lines) (future : List Lines) :
    machine.runRaising (raised :: future) = (machine.raise raised).step.runRaising future :=
  rfl

@[simp] theorem runRaising_append (machine : Machine) (past future : List Lines) :
    machine.runRaising (past ++ future) = (machine.runRaising past).runRaising future :=
  List.foldl_append

end Z80.Machine
