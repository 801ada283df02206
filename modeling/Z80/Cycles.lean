/-!
# Clock cycles

What instructions cost, and the counters of the current step and of the time since reset.
-/

namespace Z80

/-- The cost of an instruction: known from its opcode, or settled as it executes. -/
inductive Cost where
  | fixed (cycles : BitVec 32)
  | dynamic
deriving DecidableEq, Inhabited

/-- The cost as a phrase. -/
def Cost.description : Cost → String
  | .fixed cycles => toString cycles.toNat ++ " cycles"
  | .dynamic => "dynamic cycles"

/-- The two costs of an instruction that branches or repeats. -/
structure BranchCost where
  taken : BitVec 32
  skipped : BitVec 32
deriving DecidableEq, Inhabited

namespace BranchCost

/-- A conditional relative jump. -/
def relativeJump : BranchCost := ⟨12, 7⟩

/-- Counting down `B` and jumping while it is not zero. -/
def countedJump : BranchCost := ⟨13, 8⟩

/-- A conditional call. -/
def call : BranchCost := ⟨17, 10⟩

/-- A conditional return. -/
def ret : BranchCost := ⟨11, 5⟩

/-- A block instruction that repeats or ends. -/
def block : BranchCost := ⟨21, 16⟩

/-- The cost of the way that was taken. -/
def choose (cost : BranchCost) (taken : Bool) : BitVec 32 :=
  if taken then cost.taken else cost.skipped

end BranchCost

/-- The cycles of the current step and all cycles since reset. -/
structure Cycles where
  current : BitVec 32 := 0
  total : BitVec 64 := 0
deriving DecidableEq, Inhabited

namespace Cycles

/-- Begins a new step. -/
def begin (cycles : Cycles) : Cycles :=
  { cycles with current := 0 }

/-- Counts cycles in both counters. -/
def spend (cycles : Cycles) (count : BitVec 32) : Cycles where
  current := cycles.current + count
  total := cycles.total + count.setWidth 64

end Cycles

end Z80
