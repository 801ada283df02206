import Z80.Proofs.Stack.Effect
import Z80.Proofs.Stack.Position

/-!
# Pushes and pops keep to the stack window

A push is two steps down and a pop two steps up. A push keeps the stack pointer in the window and
reports exactly the steps that would leave it (`push_takesSteps`). A pop does so too
(`pop_takesSteps`), except where it steps up from the end of the address space: there it reports
nothing and leaves the window (`not_takesSteps_pop`).
-/

namespace Z80.Machine

/-- The stack pointer took two steps by a rule on positions, it stands in the window afterwards, and
the faults of the two steps, and no others, were reported. -/
structure TakesSteps (machine : Machine) (rule : Nat → Nat × Option Fault) (after : Machine) :
    Prop where
  position : after.window.position after.registers.sp =
    (rule (rule (machine.window.position machine.registers.sp)).1).1
  inside : after.window.Inside after.registers.sp
  faults : after.faults =
    machine.faults ++ (rule (machine.window.position machine.registers.sp)).2.toList ++
      (rule (rule (machine.window.position machine.registers.sp)).1).2.toList

variable {machine : Machine}

/-- Two steps that follow a rule one after the other. -/
theorem takesSteps_of_follows {rule : Nat → Nat × Option Fault} {after : Machine}
    {first second : Word × Option Fault}
    (hfirst : machine.window.Follows rule machine.registers.sp first)
    (hsecond : machine.window.Follows rule first.1 second)
    (hwindow : after.window = machine.window) (hsp : after.registers.sp = second.1)
    (hfaults : after.faults = machine.faults ++ first.2.toList ++ second.2.toList) :
    machine.TakesSteps rule after := by
  refine ⟨?_, ?_, ?_⟩
  · rw [hwindow, hsp, hsecond.position, hfirst.position]
  · rw [hwindow, hsp]
    exact hsecond.inside
  · rw [hfaults, hfirst.fault, hsecond.fault, hfirst.position]

section

variable (hproper : machine.window.lowest < machine.window.highest)
  (hend : machine.window.highest ≤ 0x10000)
  (hpartial : machine.window.lowest = 0 → machine.window.highest ≠ 0x10000)
  (hinside : machine.window.Inside machine.registers.sp)

include hproper hend hpartial hinside

/-- A push steps down twice. -/
theorem push_takesSteps (value : Word) :
    machine.TakesSteps machine.window.descend (machine.push value) := by
  have hfirst := Window.decrement_follows hproper hend hpartial hinside
  have hsecond := Window.decrement_follows hproper hend hpartial hfirst.inside
  exact takesSteps_of_follows hfirst hsecond (by rw [push_eq]) (by rw [push_eq])
    (faults_push machine value)

/-- A pop steps up twice, unless one of the steps starts at the end of the address space. -/
theorem pop_takesSteps
    (hreach : machine.window.highest = 0x10000 →
      machine.registers.sp ≠ 0 ∧ machine.registers.sp ≠ 0xFFFF) :
    machine.TakesSteps machine.window.ascend machine.pop.2 := by
  have hfirst := Window.increment_follows hproper hend hpartial hinside
    fun hsp hlast => (hreach hlast).1 hsp
  have hnext : (machine.window.increment machine.registers.sp).1 = 0 →
      machine.window.highest ≠ 0x10000 := by
    -- The second step starts at the end only if the first starts one below it.
    intro hzero hlast
    obtain ⟨hne, htop⟩ := hreach hlast
    have hposition := hfirst.position
    rw [hzero, Window.position_zero (by omega), Window.position_of_ne_zero _ hne] at hposition
    have hnumber : machine.registers.sp.toNat = 0xFFFF := by
      unfold Window.ascend at hposition
      split at hposition <;> simp only at hposition <;> omega
    exact htop (BitVec.eq_of_toNat_eq hnumber)
  have hsecond := Window.increment_follows hproper hend hpartial hfirst.inside hnext
  exact takesSteps_of_follows hfirst hsecond (by rw [pop_eq]) (by rw [pop_eq]) (faults_pop machine)

end

/-- A pop that steps up from the end of the address space reports nothing, although it leaves the
window. -/
theorem faults_pop_of_last (hlast : machine.window.highest = 0x10000)
    (hsp : machine.registers.sp = 0 ∨ machine.registers.sp = 0xFFFF) :
    machine.pop.2.faults = machine.faults := by
  rw [faults_pop]
  rcases hsp with hsp | hsp
  · have hsecond := Window.increment_ofNat (by omega : machine.window.highest ≤ 0x10000)
      (by omega : 1 < machine.window.highest)
    rw [hsp, Window.increment_zero hlast, show (1 : Word) = BitVec.ofNat 16 1 from rfl, hsecond]
    simp
  · have hfirst := Window.increment_ofNat (by omega : machine.window.highest ≤ 0x10000)
      (by omega : 0xFFFF < machine.window.highest)
    rw [hsp, show (0xFFFF : Word) = BitVec.ofNat 16 0xFFFF from rfl, hfirst,
      show BitVec.ofNat 16 (0xFFFF + 1) = 0 from rfl, Window.increment_zero hlast]
    simp

/-- Such a pop does not take its steps as the rule says. -/
theorem not_takesSteps_pop (hlast : machine.window.highest = 0x10000)
    (hsp : machine.registers.sp = 0 ∨ machine.registers.sp = 0xFFFF) :
    ¬machine.TakesSteps machine.window.ascend machine.pop.2 := by
  intro hsteps
  have hfaults := hsteps.faults
  rw [faults_pop_of_last hlast hsp] at hfaults
  -- The rule has a fault to report that the pop does not.
  have hlength := congrArg List.length hfaults
  rcases hsp with hsp | hsp
  · rw [hsp, Window.position_zero (by omega)] at hlength
    simp [Window.ascend, hlast] at hlength
  · rw [hsp, Window.position_of_ne_zero _ (by decide)] at hlength
    simp [Window.ascend, hlast] at hlength

/-! ## Both operations -/

/-- Inside a window that is not the whole address space, every push takes its two steps as the rule
for steps down says, and a pop those for steps up exactly if neither starts at the end of the
address space. -/
theorem push_pop_takesSteps_iff (machine : Machine)
    (hproper : machine.window.lowest < machine.window.highest)
    (hend : machine.window.highest ≤ 0x10000)
    (hpartial : ¬(machine.window.lowest = 0 ∧ machine.window.highest = 0x10000))
    (hinside : machine.window.Inside machine.registers.sp) (value : Word) :
    machine.TakesSteps machine.window.descend (machine.push value) ∧
      (machine.TakesSteps machine.window.ascend machine.pop.2 ↔
        ¬(machine.window.highest = 0x10000 ∧
          (machine.registers.sp = 0 ∨ machine.registers.sp = 0xFFFF))) := by
  have hapart : machine.window.lowest = 0 → machine.window.highest ≠ 0x10000 :=
    fun hlow hhigh => hpartial ⟨hlow, hhigh⟩
  refine ⟨push_takesSteps hproper hend hapart hinside value, ?_, ?_⟩
  · rintro hsteps ⟨hlast, hsp⟩
    exact not_takesSteps_pop hlast hsp hsteps
  · intro hreach
    exact pop_takesSteps hproper hend hapart hinside fun hlast =>
      ⟨fun hsp => hreach ⟨hlast, .inl hsp⟩, fun hsp => hreach ⟨hlast, .inr hsp⟩⟩

/-- From the lowest position a push goes round at its first byte and a pop moves up by two. -/
theorem push_pop_takesSteps_lowest :
    let machine := withStack 0xC000 0xE000 0xC000
    machine.window.lowest < machine.window.highest ∧ machine.window.highest ≤ 0x10000 ∧
      ¬(machine.window.lowest = 0 ∧ machine.window.highest = 0x10000) ∧
      machine.window.Inside machine.registers.sp ∧
      machine.TakesSteps machine.window.descend (machine.push 0xBEEF) ∧
      machine.TakesSteps machine.window.ascend machine.pop.2 := by
  obtain ⟨hpush, hpop⟩ := push_pop_takesSteps_iff (withStack 0xC000 0xE000 0xC000) (by decide)
    (by decide) (by decide) (by decide) 0xBEEF
  exact ⟨by decide, by decide, by decide, by decide, hpush, hpop.2 (by decide)⟩

/-- In a window that ends with the address space, a pop from the empty stack reports nothing and
leaves the stack pointer outside. -/
theorem pop_leaves_window :
    let machine := withStack 0xC000 0x10000 0
    machine.window.lowest < machine.window.highest ∧ machine.window.highest ≤ 0x10000 ∧
      ¬(machine.window.lowest = 0 ∧ machine.window.highest = 0x10000) ∧
      machine.window.Inside machine.registers.sp ∧
      machine.pop.2.registers.sp = 2 ∧ machine.pop.2.faults = [] ∧
      ¬machine.window.Inside machine.pop.2.registers.sp ∧
      ¬machine.TakesSteps machine.window.ascend machine.pop.2 := by
  refine ⟨by decide, by decide, by decide, by decide, by decide, by decide, by decide, ?_⟩
  exact not_takesSteps_pop rfl (.inl rfl)

end Z80.Machine
