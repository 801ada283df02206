import Z80.Observer

/-!
# Recording observers

A transcript keeps everything that it is told and wants no traces. A recorder is a transcript that
can be switched to want them.
-/

namespace Z80

/-- The reports of each kind, oldest first. -/
structure Transcript where
  errors : Array String := #[]
  debugLines : Array String := #[]
  traces : Array Trace := #[]
deriving DecidableEq, Inhabited

namespace Transcript

/-- Appends a fault. -/
def addError (transcript : Transcript) (message : String) : Transcript :=
  { transcript with errors := transcript.errors.push message }

/-- Appends a notice. -/
def addDebug (transcript : Transcript) (message : String) : Transcript :=
  { transcript with debugLines := transcript.debugLines.push message }

/-- Appends an instruction trace. -/
def addTrace (transcript : Transcript) (trace : Trace) : Transcript :=
  { transcript with traces := transcript.traces.push trace }

instance : Observer Transcript where
  error message transcript := transcript.addError message
  debug message transcript := transcript.addDebug message
  instruction trace transcript := transcript.addTrace trace

end Transcript

/-- A transcript with a switch for instruction traces. -/
structure Recorder where
  tracing : Bool := false
  transcript : Transcript := {}
deriving DecidableEq, Inhabited

instance : Observer Recorder where
  error message recorder :=
    { recorder with transcript := recorder.transcript.addError message }
  debug message recorder :=
    { recorder with transcript := recorder.transcript.addDebug message }
  instruction trace recorder :=
    { recorder with transcript := recorder.transcript.addTrace trace }
  wantsTraces recorder := recorder.tracing

end Z80
