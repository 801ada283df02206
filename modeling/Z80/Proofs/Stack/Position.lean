import Z80.Window

/-!
# Positions in the stack window

A stack pointer inside the window stands at a position between `lowest` and `highest`, and the
position determines it (`ofNat_position`). `decrement` and `increment` compute on stack pointers;
`descend` and `ascend` say on positions what a step of the pointer is meant to do. A step down
always follows `descend` (`decrement_eq_descend`). A step up follows `ascend` except from the end of
a window that reaches the end of the address space (`increment_eq_ascend`, `increment_zero`).
-/

namespace Z80.Window

/-- The pointer stands in the window. The end of the window counts: an empty stack stands there. -/
def Inside (window : Window) (sp : Word) : Prop :=
  window.lowest ≤ window.position sp ∧ window.position sp ≤ window.highest

/-- `Inside` is decidable by two comparisons. -/
instance (window : Window) (sp : Word) : Decidable (window.Inside sp) :=
  inferInstanceAs (Decidable (_ ∧ _))

/-- One step down: from the lowest position the pointer goes round to the topmost byte, and this is
reported. -/
def descend (window : Window) (position : Nat) : Nat × Option Fault :=
  if position = window.lowest then
    (window.highest - 1,
      some (.stackUnderflow position window.lowest (BitVec.ofNat 16 (window.highest - 1))))
  else (position - 1, none)

/-- One step up: from the end of the window the pointer goes round to the lowest position, and this
is reported. -/
def ascend (window : Window) (position : Nat) : Nat × Option Fault :=
  if position = window.highest then
    (window.lowest,
      some (.stackOverflow (BitVec.ofNat 16 position) window.highest
        (BitVec.ofNat 16 window.lowest)))
  else (position + 1, none)

variable {window : Window}

theorem limit_eq_highest (hend : window.highest ≤ 0x10000) : window.limit = window.highest := by
  unfold limit
  omega

/-- The position of a pointer determines it. -/
theorem ofNat_position (window : Window) (sp : Word) :
    BitVec.ofNat 16 (window.position sp) = sp := by
  unfold position
  split
  · rename_i h
    rw [h.2, h.1]
    rfl
  · simp

/-- Every position is that of its own pointer, except that a pointer of zero stands at the end of
the address space where the window reaches it. -/
theorem position_ofNat (hend : window.highest ≤ 0x10000) {position : Nat}
    (hposition : position ≤ window.highest) (hzero : position = 0 → window.highest ≠ 0x10000) :
    window.position (BitVec.ofNat 16 position) = position := by
  unfold Window.position
  rw [limit_eq_highest hend]
  -- The end of the address space has no word of its own: it is stored as zero.
  by_cases hlast : position = 0x10000
  · subst hlast
    have hhighest : window.highest = 0x10000 := by omega
    simp [hhighest]
  · have hmod : position % 2 ^ 16 = position := Nat.mod_eq_of_lt (by omega)
    have hne : ¬(BitVec.ofNat 16 position = 0 ∧ window.highest = 0x10000) := by
      rintro ⟨hword, hhighest⟩
      have hnat := congrArg BitVec.toNat hword
      simp only [BitVec.toNat_ofNat, hmod] at hnat
      exact hzero hnat hhighest
    rw [if_neg hne, BitVec.toNat_ofNat, hmod]

/-- A pointer other than zero stands where its number says. -/
theorem position_of_ne_zero (window : Window) {sp : Word} (hzero : sp ≠ 0) :
    window.position sp = sp.toNat :=
  if_neg fun h => hzero h.1

/-- Where the window does not reach the end of the address space, so does a pointer of zero. -/
theorem position_eq_toNat (hend : window.highest ≤ 0x10000) {sp : Word}
    (hzero : sp = 0 → window.highest ≠ 0x10000) : window.position sp = sp.toNat := by
  unfold position
  rw [limit_eq_highest hend, if_neg fun h => hzero h.1 h.2]

/-- Where it does, a pointer of zero stands at the end. -/
theorem position_zero (hlast : 0x10000 ≤ window.highest) : window.position 0 = 0x10000 := by
  have hlimit : window.limit = 0x10000 := by
    unfold limit
    omega
  unfold position
  rw [hlimit, if_pos ⟨rfl, rfl⟩]

/-! ## Steps that stay inside -/

/-- Above the lowest position a step down is a plain decrement. -/
theorem decrement_ofNat (hend : window.highest ≤ 0x10000) {position : Nat}
    (hlow : window.lowest < position) (hhigh : position ≤ window.highest) :
    window.decrement (BitVec.ofNat 16 position) = (BitVec.ofNat 16 (position - 1), none) := by
  unfold decrement
  rw [position_ofNat hend hhigh (by omega), if_neg (by omega)]

/-- Below the end of the window a step up is a plain increment. -/
theorem increment_ofNat (hend : window.highest ≤ 0x10000) {position : Nat}
    (hhigh : position < window.highest) :
    window.increment (BitVec.ofNat 16 position) = (BitVec.ofNat 16 (position + 1), none) := by
  have hmod : position % 2 ^ 16 = position := Nat.mod_eq_of_lt (by omega)
  unfold increment
  rw [limit_eq_highest hend, BitVec.toNat_ofNat, hmod, if_neg (by omega), BitVec.ofNat_add]
  rfl

/-! ## Steps from any position -/

/-- A step down does what `descend` says. -/
theorem decrement_eq_descend (hend : window.highest ≤ 0x10000) {sp : Word}
    (hinside : window.Inside sp) :
    window.decrement sp =
      (BitVec.ofNat 16 (window.descend (window.position sp)).1,
        (window.descend (window.position sp)).2) := by
  obtain ⟨hlow, hhigh⟩ := hinside
  by_cases hlowest : window.position sp = window.lowest
  · have hunder : window.position sp = 0 ∨ window.position sp - 1 < window.lowest := by omega
    simp only [decrement, descend, if_pos hunder, if_pos hlowest, limit_eq_highest hend]
  · have hstep := decrement_ofNat hend (by omega : window.lowest < window.position sp) hhigh
    rw [ofNat_position] at hstep
    rw [hstep, descend, if_neg hlowest]

/-- A step up does what `ascend` says, unless the pointer stands at the end of the address space. -/
theorem increment_eq_ascend (hend : window.highest ≤ 0x10000) {sp : Word}
    (hinside : window.Inside sp) (hlast : sp = 0 → window.highest ≠ 0x10000) :
    window.increment sp =
      (BitVec.ofNat 16 (window.ascend (window.position sp)).1,
        (window.ascend (window.position sp)).2) := by
  have hposition := position_eq_toNat hend hlast
  obtain ⟨_, hhigh⟩ := hinside
  by_cases hhighest : window.position sp = window.highest
  · have hover : window.highest < sp.toNat + 1 := by omega
    simp only [increment, ascend, limit_eq_highest hend, if_pos hover, if_pos hhighest,
      ofNat_position]
  · have hstep := increment_ofNat hend (by omega : window.position sp < window.highest)
    rw [ofNat_position] at hstep
    rw [hstep, ascend, if_neg hhighest]

/-- From the end of the address space a step up is not reported and leads to address 1. -/
theorem increment_zero (hlast : window.highest = 0x10000) : window.increment 0 = (1, none) := by
  unfold increment
  rw [limit_eq_highest (by omega), hlast]
  rfl

/-! ## The whole address space -/

/-- Where the whole address space is the stack, a step down is arithmetic on words. -/
theorem decrement_of_full (hlow : window.lowest = 0) (hhigh : 0x10000 ≤ window.highest)
    (sp : Word) : window.decrement sp = (sp - 1, none) := by
  unfold decrement
  by_cases hzero : sp = 0
  · subst hzero
    rw [position_zero hhigh, hlow, if_neg (by omega)]
    rfl
  · have hpositive : sp.toNat ≠ 0 := fun h => hzero (BitVec.eq_of_toNat_eq h)
    have hword : BitVec.ofNat 16 (sp.toNat - 1) = sp - 1 := by
      have hone : (1 : Word).toNat = 1 := rfl
      apply BitVec.eq_of_toNat_eq
      simp only [BitVec.toNat_ofNat, BitVec.toNat_sub, hone]
      omega
    rw [position_of_ne_zero window hzero, hlow, if_neg (by omega), hword]

/-- Where the whole address space is the stack, a step up is arithmetic on words. -/
theorem increment_of_full (hhigh : 0x10000 ≤ window.highest) (sp : Word) :
    window.increment sp = (sp + 1, none) := by
  unfold increment limit
  rw [if_neg (by omega)]

/-! ## Steps that follow a rule -/

/-- The step leads from the pointer to where the rule leads from its position, with the rule's
fault, and ends in the window. -/
structure Follows (window : Window) (rule : Nat → Nat × Option Fault) (sp : Word)
    (step : Word × Option Fault) : Prop where
  position : window.position step.1 = (rule (window.position sp)).1
  fault : step.2 = (rule (window.position sp)).2
  inside : window.Inside step.1

/-- A step to the place that a rule names follows the rule if that place lies in the window. -/
theorem follows_of_range (hend : window.highest ≤ 0x10000)
    (hpartial : window.lowest = 0 → window.highest ≠ 0x10000)
    {rule : Nat → Nat × Option Fault} {sp : Word} {step : Word × Option Fault}
    (hstep : step = (BitVec.ofNat 16 (rule (window.position sp)).1,
      (rule (window.position sp)).2))
    (hlow : window.lowest ≤ (rule (window.position sp)).1)
    (hhigh : (rule (window.position sp)).1 ≤ window.highest) :
    window.Follows rule sp step := by
  have hposition := position_ofNat hend hhigh (by omega)
  subst hstep
  refine ⟨hposition, rfl, ?_⟩
  unfold Inside
  rw [hposition]
  exact ⟨hlow, hhigh⟩

/-- A step down from inside follows `descend`. The window that is the whole address space is apart,
since nothing can leave it. -/
theorem decrement_follows (hproper : window.lowest < window.highest)
    (hend : window.highest ≤ 0x10000)
    (hpartial : window.lowest = 0 → window.highest ≠ 0x10000) {sp : Word}
    (hinside : window.Inside sp) : window.Follows window.descend sp (window.decrement sp) := by
  have hstep := decrement_eq_descend hend hinside
  obtain ⟨hlow, hhigh⟩ := hinside
  -- Going round or not, the rule names a place between the bounds.
  apply follows_of_range hend hpartial hstep <;> unfold descend <;> split <;> simp only <;> omega

/-- A step up from inside, but not from the end of the address space, follows `ascend`. -/
theorem increment_follows (hproper : window.lowest < window.highest)
    (hend : window.highest ≤ 0x10000)
    (hpartial : window.lowest = 0 → window.highest ≠ 0x10000) {sp : Word}
    (hinside : window.Inside sp) (hlast : sp = 0 → window.highest ≠ 0x10000) :
    window.Follows window.ascend sp (window.increment sp) := by
  have hstep := increment_eq_ascend hend hinside hlast
  obtain ⟨hlow, hhigh⟩ := hinside
  apply follows_of_range hend hpartial hstep <;> unfold ascend <;> split <;> simp only <;> omega

end Z80.Window
