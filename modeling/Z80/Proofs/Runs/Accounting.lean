import Z80.Proofs.Runs.Interludes
import Z80.Proofs.Tracing.Step

/-!
# Counting cycles

Every step spends from 4 to 23 cycles, on a counter that it has set to zero (`Machine.step_spends`).
The costs of the pages are in that range, as are both costs of every branch, and every entry spends
its cost once. So the counter of the current step never wraps, and the total is the sum of what the
steps of a run return (`Emulator.accountsForCycles`).
-/

namespace Z80

/-! ## The range of costs -/

/-- A number of cycles that one step may take. -/
def IsStepCost (cost : BitVec 32) : Prop :=
  4 ≤ cost.toNat ∧ cost.toNat ≤ 23

instance (cost : BitVec 32) : Decidable (IsStepCost cost) :=
  inferInstanceAs (Decidable (_ ∧ _))

/-- The cost is in the range of a step, as far as it is fixed. -/
def Cost.InRange : Cost → Prop
  | .fixed cycles => IsStepCost cycles
  | .dynamic => True

instance : DecidablePred Cost.InRange
  | .fixed cycles => inferInstanceAs (Decidable (IsStepCost cycles))
  | .dynamic => inferInstanceAs (Decidable True)

theorem Page.inRange_unprefixedEntry :
    ∀ opcode : Byte, ∀ entry ∈ Page.unprefixedEntry? opcode, entry.cost.InRange := by
  decide +kernel

theorem Page.inRange_bitsEntry : ∀ opcode : Byte, (Page.bitsEntry opcode).cost.InRange := by
  decide +kernel

theorem Page.inRange_extendedEntry :
    ∀ opcode : Byte, ∀ entry ∈ Page.extendedEntry? opcode, entry.cost.InRange := by
  decide +kernel

theorem Page.inRange_indexedEntry (index : Index) :
    ∀ opcode : Byte, ∀ entry ∈ Page.indexedEntry? index opcode, entry.cost.InRange := by
  cases index <;> decide +kernel

theorem Page.inRange_indexedBitsEntry (index : Index) (displacement opcode : Byte) :
    (Page.indexedBitsEntry index displacement opcode).cost.InRange := by
  have hcosts : (Cost.fixed 20).InRange ∧ (Cost.fixed 23).InRange := by decide
  unfold Page.indexedBitsEntry Page.bitMemoryCost
  split
  · exact hcosts.1
  · exact hcosts.2

/-- The whole instruction set is in the range. -/
theorem Code.inRange {code : Code} {entry : Entry} (hentry : code.entry? = some entry) :
    entry.cost.InRange :=
  Code.forall_entry (·.cost.InRange) Page.inRange_unprefixedEntry Page.inRange_bitsEntry
    Page.inRange_extendedEntry Page.inRange_indexedEntry Page.inRange_indexedBitsEntry hentry

/-- Both ways of every branch are in the range. -/
theorem Instruction.isStepCost_choose {instruction : Instruction} {cost : BranchCost}
    (hcost : instruction.branchCost? = some cost) (taken : Bool) :
    IsStepCost (cost.choose taken) := by
  unfold branchCost? at hcost
  split at hcost <;> cases hcost <;> cases taken <;> decide

theorem Entry.Spends.isStepCost {entry : Entry} {spent : BitVec 32} (hspends : entry.Spends spent)
    (hrange : entry.cost.InRange) : IsStepCost spent := by
  cases hspends with
  | fixed hcost =>
      rw [hcost] at hrange
      exact hrange
  | chosen taken _ hchosen => exact Instruction.isStepCost_choose hchosen taken

/-! ## One step -/

namespace Machine

/-- The step sets the counter of the current step to zero and spends a number of cycles once. -/
def StepSpends (machine : Machine) (cost : BitVec 32) : Prop :=
  IsStepCost cost ∧ machine.step.cycles = machine.cycles.begin.spend cost

variable {machine : Machine}

theorem isStepCost_idleCost : IsStepCost idleCost := by
  decide

theorem stepSpends_of_call {prepared : Machine} {address : Word}
    (hstep : machine.step = (prepared.call address).spend interruptCost)
    (hprepared : prepared.cycles = machine.cycles.begin) : machine.StepSpends interruptCost := by
  have hcall := ((Reading.refl prepared).toHasRead.call address).cycles
  refine ⟨by decide, ?_⟩
  rw [hstep, spend, hcall, hprepared]

theorem Executes.stepSpends (hexecutes : machine.Executes) : ∃ cost, machine.StepSpends cost := by
  have hstep := hexecutes.step_eq_elim
  have hfetched : machine.begun.fetchCode.2.cycles = machine.cycles.begin := begun_fetches.cycles
  cases hentry : machine.memory.entryAt? machine.registers.pc with
  | none =>
      rw [hentry, Option.elim_none] at hstep
      refine ⟨idleCost, isStepCost_idleCost, ?_⟩
      rw [hstep, ← hfetched]
      rfl
  | some entry =>
      rw [hentry, Option.elim_some] at hstep
      obtain ⟨spent, hspends, hcycles⟩ :=
        (machine.begun.fetchCode.2.perform_performs hentry).cycles
      refine ⟨spent, hspends.isStepCost (Code.inRange hentry), ?_⟩
      rw [hstep, ← hfetched, ← hcycles]
      rfl

/-- Whatever a step does, it spends a cost in the range. -/
theorem step_spends (machine : Machine) : ∃ cost, machine.StepSpends cost := by
  cases machine.stepKind with
  | nonMaskable hraised => exact ⟨_, stepSpends_of_call (step_nonMaskable hraised) rfl⟩
  | served hdue hmode => exact ⟨_, stepSpends_of_call (step_maskable_of_served hdue hmode) rfl⟩
  | dropped hdue hmode => exact ⟨_, isStepCost_idleCost, by rw [step_dropped hdue hmode]; rfl⟩
  | idle hnothing hhalted =>
      exact ⟨_, isStepCost_idleCost, by rw [step_idle hnothing hhalted]; rfl⟩
  | executes hexecutes => exact hexecutes.stepSpends

theorem StepSpends.current {cost : BitVec 32} (hspends : machine.StepSpends cost) :
    machine.step.cycles.current = cost := by
  rw [hspends.2]
  exact BitVec.zero_add cost

end Machine

/-! ## Sums -/

/-- The sum of numbers of cycles, which does not wrap. -/
def cycleSum (costs : List (BitVec 32)) : Nat :=
  costs.foldr (fun cost sum => cost.toNat + sum) 0

@[simp] theorem cycleSum_cons (cost : BitVec 32) (costs : List (BitVec 32)) :
    cycleSum (cost :: costs) = cost.toNat + cycleSum costs :=
  rfl

theorem cycleSum_le (costs : List (BitVec 32)) : cycleSum costs ≤ costs.length * 0xFFFFFFFF := by
  induction costs with
  | nil => exact Nat.le_refl _
  | cons cost costs ih =>
      have hcost := cost.isLt
      rw [cycleSum_cons, List.length_cons, Nat.succ_mul]
      omega

namespace Cycles

theorem total_spend (cycles : Cycles) (cost : BitVec 32) :
    (cycles.spend cost).total = cycles.total + BitVec.ofNat 64 cost.toNat := by
  rw [BitVec.ofNat_toNat]
  rfl

/-- The total counts every part, modulo its own size. -/
theorem total_foldl_spend (cycles : Cycles) (costs : List (BitVec 32)) :
    (costs.foldl spend cycles).total = cycles.total + BitVec.ofNat 64 (cycleSum costs) := by
  induction costs generalizing cycles with
  | nil => exact (BitVec.add_zero _).symm
  | cons cost costs ih =>
      rw [List.foldl_cons, ih, total_spend, cycleSum_cons, BitVec.ofNat_add, BitVec.add_assoc]

/-- Since the total is wide enough, it tells the exact sum of what is spent in parts. -/
theorem cycleSum_eq_of_foldl {cycles : Cycles} {cost : BitVec 32} {costs : List (BitVec 32)}
    (hlength : costs.length ≤ 0x100000000) (hparts : costs.foldl spend cycles = cycles.spend cost) :
    cycleSum costs = cost.toNat := by
  have htotal := congrArg total hparts
  rw [total_foldl_spend, total_spend, BitVec.add_right_inj] at htotal
  have hmod := congrArg BitVec.toNat htotal
  have hsum := cycleSum_le costs
  have hcost := cost.isLt
  rw [BitVec.toNat_ofNat, BitVec.toNat_ofNat] at hmod
  omega

end Cycles

/-! ## Runs -/

namespace Emulator

variable {σ : Type} [Observer σ]

/-- How a step counts its cycles. However they are spent in parts, the parts add up to what the step
returns, so that the counter of the current step has not wrapped on the way. -/
structure StepAccounts (emulator : Emulator σ) : Prop where
  lowest : 4 ≤ emulator.step.1.toNat
  highest : emulator.step.1.toNat ≤ 23
  current : emulator.step.2.machine.cycles.current = emulator.step.1
  total : emulator.step.2.machine.cycles.total =
    emulator.machine.cycles.total + emulator.step.1.setWidth 64
  parts : ∀ costs : List (BitVec 32), costs.length ≤ 0x100000000 →
    costs.foldl Cycles.spend emulator.machine.cycles.begin = emulator.step.2.machine.cycles →
      cycleSum costs = emulator.step.1.toNat

/-- The total after a run is the sum of what its steps have returned, as long as that fits. -/
def SumsUp (ran : List (BitVec 32) × Emulator σ) : Prop :=
  cycleSum ran.1 < 0x10000000000000000 → ran.2.machine.cycles.total.toNat = cycleSum ran.1

/-- Every step counts its cycles, and from a new or a reset emulator the total of every run is the
sum of them. -/
structure AccountsForCycles (σ : Type) [Observer σ] : Prop where
  step : ∀ emulator : Emulator σ, emulator.StepAccounts
  created : ∀ (config : Config) (machine : Machine) (observer : σ)
    (interludes : List (Interlude σ)), SumsUp ((create config machine observer).run interludes)
  reset : ∀ (emulator : Emulator σ) (interludes : List (Interlude σ)),
    SumsUp (emulator.reset.run interludes)

theorem stepAccounts (emulator : Emulator σ) : emulator.StepAccounts := by
  obtain ⟨cost, hspends⟩ := emulator.machine.step_spends
  have hreturned : emulator.step.1 = cost := hspends.current
  obtain ⟨⟨hlowest, hhighest⟩, hcycles⟩ := hspends
  rw [← hreturned] at hlowest hhighest hcycles
  exact
    { lowest := hlowest
      highest := hhighest
      current := rfl
      total := congrArg Cycles.total hcycles
      parts := by
        intro costs hlength hparts
        exact Cycles.cycleSum_eq_of_foldl hlength (hparts.trans hcycles) }

/-- A run adds to the total what its steps return. -/
theorem total_run (emulator : Emulator σ) (interludes : List (Interlude σ)) :
    (emulator.run interludes).2.machine.cycles.total =
      emulator.machine.cycles.total + BitVec.ofNat 64 (cycleSum (emulator.run interludes).1) := by
  induction interludes generalizing emulator with
  | nil => exact (BitVec.add_zero _).symm
  | cons interlude interludes ih =>
      have hstep := (emulator.pause interlude).stepAccounts.total
      rw [← BitVec.ofNat_toNat] at hstep
      rw [run_cons, ih, hstep, cycleSum_cons, BitVec.ofNat_add, BitVec.add_assoc]
      rfl

theorem sumsUp_of_zero {emulator : Emulator σ} (hzero : emulator.machine.cycles.total = 0)
    (interludes : List (Interlude σ)) : SumsUp (emulator.run interludes) := by
  intro hfits
  have htotal := emulator.total_run interludes
  rw [hzero] at htotal
  rw [htotal.trans (BitVec.zero_add _), BitVec.toNat_ofNat, Nat.mod_eq_of_lt hfits]

theorem accountsForCycles : AccountsForCycles σ where
  step := stepAccounts
  created _ _ _ := sumsUp_of_zero rfl
  reset _ := sumsUp_of_zero rfl

end Emulator

end Z80
