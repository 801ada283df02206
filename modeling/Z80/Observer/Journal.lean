import Z80.Observer

/-!
# Journals

A journal keeps leveled records and drops those that are more detailed than its threshold. Faults
are errors, notices are debug records, and instruction traces are trace records on a channel of
their own.
-/

namespace Z80

/-- How detailed a record is, from the gravest to the most detailed. -/
inductive Level where
  | error
  | warn
  | info
  | debug
  | trace
deriving DecidableEq, Inhabited

/-- The place of a level in order of detail. -/
def Level.rank : Level → Nat
  | .error => 1
  | .warn => 2
  | .info => 3
  | .debug => 4
  | .trace => 5

/-- What a record is about. -/
inductive Channel where
  | machine
  | instructions
deriving DecidableEq, Inhabited

/-- An entry of a journal. -/
structure Record where
  level : Level
  channel : Channel
  text : String
deriving DecidableEq, Inhabited

/-- A journal with the most detailed level that it keeps, if it keeps any. -/
structure Journal where
  threshold : Option Level := none
  records : Array Record := #[]
deriving DecidableEq, Inhabited

namespace Journal

/-- Whether records of a level are kept. -/
def keeps (journal : Journal) (level : Level) : Bool :=
  match journal.threshold with
  | none => false
  | some threshold => decide (level.rank ≤ threshold.rank)

/-- Appends a record, if its level is kept. -/
def add (journal : Journal) (record : Record) : Journal :=
  if journal.keeps record.level then { journal with records := journal.records.push record }
  else journal

instance : Observer Journal where
  error message journal := journal.add ⟨.error, .machine, message⟩
  debug message journal := journal.add ⟨.debug, .machine, message⟩
  instruction trace journal := journal.add ⟨.trace, .instructions, trace.line⟩
  wantsTraces journal := journal.keeps .trace

end Journal

end Z80
