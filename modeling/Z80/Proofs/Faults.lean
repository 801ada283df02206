import Z80.Machine.Basic

/-!
# The faults in a log

A machine's log holds everything that it did. `Machine.faults` is the part of it that reports
something gone wrong, and `reported` is what a step that may fail adds to a log.
-/

namespace Z80

/-- The fault that an event reports, if it reports one. -/
def Event.fault? : Event → Option Fault
  | .fault reported => some reported
  | _ => none

/-- A log with a fault appended, if there is one. -/
def reported (log : Array Event) : Option Fault → Array Event
  | none => log
  | some fault => log.push (.fault fault)

namespace Machine

/-- The faults in the log, oldest first. -/
def faults (machine : Machine) : List Fault :=
  machine.log.toList.filterMap Event.fault?

end Machine

theorem toList_reported (log : Array Event) (fault : Option Fault) :
    (reported log fault).toList = log.toList ++ (fault.map Event.fault).toList := by
  cases fault <;> simp [reported]

@[simp] theorem filterMap_fault_reported (log : Array Event) (fault : Option Fault) :
    (reported log fault).toList.filterMap Event.fault? =
      log.toList.filterMap Event.fault? ++ fault.toList := by
  cases fault <;> simp [reported, Event.fault?]

end Z80
