import Z80.Proofs.Stack.Bounds

/-!
# A pop takes back what was pushed

A pop reads the low byte where the push left it and the high byte one step further up. So it yields
the pushed word exactly if that step up leads to where the high byte is (`pop_push_fst`). It does so
unless the push went round the window between its two bytes.
-/

namespace Z80.Machine

variable {machine : Machine}

theorem ofNat_ne {left right : Nat} (h : left % 0x10000 ≠ right % 0x10000) :
    BitVec.ofNat 16 left ≠ BitVec.ofNat 16 right := by
  intro heq
  have hnat := congrArg BitVec.toNat heq
  simp only [BitVec.toNat_ofNat] at hnat
  exact h hnat

/-- The word popped after a push, in terms of the places that the stack pointer visits. -/
theorem pop_push_fst (machine : Machine) (value : Word) :
    (machine.push value).pop.1 =
      let first := machine.window.decrement machine.registers.sp
      let second := machine.window.decrement first.1
      joinBytes
        (((machine.memory.write first.1 (highByte value)).write second.1 (lowByte value)).read
          (machine.window.increment second.1).1)
        (lowByte value) := by
  simp only [pop_eq, push_eq, Memory.read_write_same]

/-- If the pop steps up onto the high byte, it takes back the pushed word. -/
theorem pop_push_of_steps_back {machine : Machine} {first second : Word × Option Fault}
    (hfirst : machine.window.decrement machine.registers.sp = first)
    (hsecond : machine.window.decrement first.1 = second)
    (hback : (machine.window.increment second.1).1 = first.1) (hne : second.1 ≠ first.1)
    (value : Word) : (machine.push value).pop.1 = value := by
  simp only [pop_push_fst, hfirst, hsecond, hback, Memory.read_write_other _ _ hne,
    Memory.read_write_same, joinBytes_highByte_lowByte]

/-- Where the whole address space is the stack, a pop undoes a push. -/
theorem pop_push_of_full (hlow : machine.window.lowest = 0)
    (hhigh : 0x10000 ≤ machine.window.highest) (value : Word) :
    (machine.push value).pop.1 = value ∧
      (machine.push value).pop.2.registers.sp = machine.registers.sp := by
  have hdown := Window.decrement_of_full hlow hhigh
  have hup := Window.increment_of_full hhigh
  constructor
  · apply pop_push_of_steps_back (hdown _) (hdown _)
    · rw [hup]
      exact BitVec.sub_add_cancel _ _
    · bv_omega
  · simp only [pop_eq, push_eq, hdown, hup, BitVec.sub_add_cancel]

/-- With room for a word below the stack pointer, a pop undoes a push. -/
theorem pop_push_of_room {position : Nat} (hend : machine.window.highest ≤ 0x10000)
    (hsp : machine.registers.sp = BitVec.ofNat 16 position)
    (hlow : machine.window.lowest + 2 ≤ position) (hhigh : position ≤ machine.window.highest)
    (value : Word) :
    (machine.push value).pop.1 = value ∧
      (machine.push value).pop.2.registers.sp = machine.registers.sp := by
  obtain ⟨below, rfl⟩ : ∃ below, position = below + 2 := ⟨position - 2, by omega⟩
  have hpush := push_of_room hend hsp hlow hhigh value
  have hwindow : (machine.push value).window = machine.window := by rw [hpush]
  have hbelow : (machine.push value).registers.sp = BitVec.ofNat 16 below := by rw [hpush]; rfl
  have hpop := pop_of_room (by rw [hwindow]; exact hend) hbelow (by rw [hwindow]; exact hhigh)
  rw [hpop]
  exact ⟨readWord_push_of_room hend hsp (by omega) hhigh value, by rw [hpush, hsp]⟩

/-! ## Pushes that go round the window -/

section

variable (hroom : machine.window.lowest + 2 ≤ machine.window.highest)
  (hend : machine.window.highest ≤ 0x10000)

include hroom hend

/-- From the lowest position a push goes round before its first byte, and a pop takes the word
back. -/
theorem pop_push_of_lowest
    (hposition : machine.window.position machine.registers.sp = machine.window.lowest)
    (value : Word) : (machine.push value).pop.1 = value := by
  have hinside : machine.window.Inside machine.registers.sp := ⟨by omega, by omega⟩
  have hfirst := Window.decrement_eq_descend hend hinside
  rw [hposition, Window.descend, if_pos rfl] at hfirst
  have hsecond := Window.decrement_ofNat hend
    (by omega : machine.window.lowest < machine.window.highest - 1) (by omega)
  have hback := Window.increment_ofNat hend
    (by omega : machine.window.highest - 1 - 1 < machine.window.highest)
  apply pop_push_of_steps_back hfirst hsecond
  · rw [hback, Nat.sub_add_cancel (by omega)]
  · exact ofNat_ne (by omega)

/-- From just above the lowest position a push goes round between its two bytes, and a pop takes
the high byte from the end of the window. -/
theorem pop_push_of_lowest_succ
    (hpartial : machine.window.lowest = 0 → machine.window.highest ≠ 0x10000)
    (hposition : machine.window.position machine.registers.sp = machine.window.lowest + 1)
    (value : Word) :
    (machine.push value).pop.1 =
      joinBytes (machine.read (BitVec.ofNat 16 machine.window.highest)) (lowByte value) := by
  have hsp := Window.ofNat_position machine.window machine.registers.sp
  have hfirst := Window.decrement_ofNat hend
    (by omega : machine.window.lowest < machine.window.lowest + 1) (by omega)
  rw [hposition] at hsp
  rw [hsp, Nat.add_sub_cancel] at hfirst
  have hlowest := Window.position_ofNat hend
    (by omega : machine.window.lowest ≤ machine.window.highest) hpartial
  have hinside : machine.window.Inside (BitVec.ofNat 16 machine.window.lowest) :=
    ⟨by omega, by omega⟩
  have hsecond := Window.decrement_eq_descend hend hinside
  rw [hlowest, Window.descend, if_pos rfl] at hsecond
  -- The step down went from the lowest position to the topmost byte. The step up does not go back
  -- there but on to the end of the window.
  have hback := Window.increment_ofNat hend
    (by omega : machine.window.highest - 1 < machine.window.highest)
  rw [Nat.sub_add_cancel (by omega)] at hback
  have hlow : BitVec.ofNat 16 (machine.window.highest - 1) ≠
      BitVec.ofNat 16 machine.window.highest := ofNat_ne (by omega)
  have hhigh : BitVec.ofNat 16 machine.window.lowest ≠
      BitVec.ofNat 16 machine.window.highest := ofNat_ne (by omega)
  simp only [pop_push_fst, hfirst, hsecond, hback, Memory.read_write_other _ _ hlow,
    Memory.read_write_other _ _ hhigh]
  rfl

/-- A push that starts below the second position goes round the window and reports it. -/
theorem faults_push_ne
    (hpartial : machine.window.lowest = 0 → machine.window.highest ≠ 0x10000)
    (hinside : machine.window.Inside machine.registers.sp)
    (hposition : machine.window.position machine.registers.sp < machine.window.lowest + 2)
    (value : Word) : (machine.push value).faults ≠ machine.faults := by
  have hsteps := (push_takesSteps (by omega) hend hpartial hinside value).faults
  intro hsame
  rw [hsteps] at hsame
  have hlength := congrArg List.length hsame
  obtain ⟨hlow, _⟩ := hinside
  obtain hlowest | hnext : machine.window.position machine.registers.sp = machine.window.lowest ∨
      machine.window.position machine.registers.sp = machine.window.lowest + 1 := by omega
  · simp [hlowest, Window.descend] at hlength
  · simp [hnext, Window.descend] at hlength

end

/-! ## Every position -/

/-- The word popped after a push is the word pushed unless the push went round the window between
its two bytes: then the high byte comes from the end of the window. A push that reports nothing is
undone. -/
theorem pop_push_iff (machine : Machine)
    (hroom : machine.window.lowest + 2 ≤ machine.window.highest)
    (hend : machine.window.highest ≤ 0x10000)
    (hinside : machine.window.Inside machine.registers.sp) (value : Word) :
    ((machine.push value).pop.1 = value ↔
      (machine.window.position machine.registers.sp = machine.window.lowest + 1 →
        (machine.window.lowest = 0 ∧ machine.window.highest = 0x10000) ∨
          machine.read (BitVec.ofNat 16 machine.window.highest) = highByte value)) ∧
      ((machine.push value).faults = machine.faults →
        (machine.push value).pop.2.registers.sp = machine.registers.sp) := by
  by_cases hfull : machine.window.lowest = 0 ∧ machine.window.highest = 0x10000
  · obtain ⟨hvalue, hsp⟩ := pop_push_of_full hfull.1 (Nat.le_of_eq hfull.2.symm) value
    exact ⟨⟨fun _ _ => .inl hfull, fun _ => hvalue⟩, fun _ => hsp⟩
  have hpartial : machine.window.lowest = 0 → machine.window.highest ≠ 0x10000 :=
    fun hlow hhigh => hfull ⟨hlow, hhigh⟩
  have hgoesRound := faults_push_ne hroom hend hpartial hinside
  obtain ⟨hlow, hhigh⟩ := hinside
  -- The push goes round before its first byte, between its bytes, or not at all.
  obtain hlowest | hnext | habove :
      machine.window.position machine.registers.sp = machine.window.lowest ∨
        machine.window.position machine.registers.sp = machine.window.lowest + 1 ∨
        machine.window.lowest + 2 ≤ machine.window.position machine.registers.sp := by omega
  · have hvalue := pop_push_of_lowest hroom hend hlowest value
    refine ⟨⟨fun _ hnext => ?_, fun _ => hvalue⟩, fun hsilent => ?_⟩
    · omega
    · exact absurd hsilent (hgoesRound (by omega) value)
  · have hvalue := pop_push_of_lowest_succ hroom hend hpartial hnext value
    refine ⟨⟨fun hsame _ => .inr ?_, fun hkept => ?_⟩, fun hsilent => ?_⟩
    · rw [hvalue] at hsame
      simpa using congrArg highByte hsame
    · obtain hwhole | hbyte := hkept hnext
      · exact absurd hwhole hfull
      · rw [hvalue, hbyte, joinBytes_highByte_lowByte]
    · exact absurd hsilent (hgoesRound (by omega) value)
  · have hsp := (Window.ofNat_position machine.window machine.registers.sp).symm
    obtain ⟨hvalue, hback⟩ := pop_push_of_room hend hsp habove hhigh value
    refine ⟨⟨fun _ hnext => ?_, fun _ => hvalue⟩, fun _ => hback⟩
    omega

/-- A push from the lowest position of the smallest window goes round at its first byte, and the
word comes back. -/
theorem pop_push_at_lowest :
    let machine := withStack 0xC000 0xC002 0xC000
    machine.window.lowest + 2 ≤ machine.window.highest ∧ machine.window.highest ≤ 0x10000 ∧
      machine.window.Inside machine.registers.sp ∧ (machine.push 0xBEEF).pop.1 = 0xBEEF := by
  obtain ⟨hvalue, _⟩ := pop_push_iff (withStack 0xC000 0xC002 0xC000) (by decide) (by decide)
    (by decide) 0xBEEF
  exact ⟨by decide, by decide, by decide, hvalue.2 fun hnext => absurd hnext (by decide)⟩

/-- A push from just above the lowest position goes round between its two bytes, and another word
comes back. -/
theorem pop_push_torn :
    let machine := withStack 0xC000 0xE000 0xC001
    machine.window.lowest + 2 ≤ machine.window.highest ∧ machine.window.highest ≤ 0x10000 ∧
      machine.window.Inside machine.registers.sp ∧ (machine.push 0x1234).pop.1 = 0x0034 ∧
      (machine.push 0x1234).pop.1 ≠ 0x1234 := by
  have hvalue : ((withStack 0xC000 0xE000 0xC001).push 0x1234).pop.1 = 0x0034 :=
    pop_push_of_lowest_succ (by decide) (by decide) (by decide) (by decide) 0x1234
  refine ⟨by decide, by decide, by decide, hvalue, ?_⟩
  rw [hvalue]
  decide

end Z80.Machine
