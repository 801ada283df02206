import Z80.Event

/-!
# Observers

Something that is told what a machine reports. An observer answers whether it wants instruction
traces, which are otherwise not sent to it. It has no way to act on the machine.
-/

namespace Z80

/-- A state that takes in reports. -/
class Observer (σ : Type) where
  /-- Takes in a fault. -/
  error : String → σ → σ
  /-- Takes in a notice. -/
  debug : String → σ → σ
  /-- Takes in an instruction trace. -/
  instruction : Trace → σ → σ
  /-- Whether instruction traces are wanted. -/
  wantsTraces : σ → Bool := fun _ => false

/-- Tells an observer about an event. Traces are told only if they are enabled and wanted, and
accesses to memory and devices are not told. -/
def Observer.observe {σ : Type} [Observer σ] (tracesEnabled : Bool) (observer : σ) : Event → σ
  | .fault fault => Observer.error fault.message observer
  | .notice notice => Observer.debug notice.message observer
  | .executed trace =>
      if tracesEnabled && Observer.wantsTraces observer then Observer.instruction trace observer
      else observer
  | _ => observer

end Z80
