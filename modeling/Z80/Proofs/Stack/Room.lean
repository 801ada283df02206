import Z80.Proofs.Stack.Effect

/-!
# Words that fit below the stack pointer

Where a word fits below the stack pointer, or where the whole address space is the stack, a push and
the pop that follows it count the stack pointer down and up as a word (`push_of_roomBelow`,
`pop_of_roomBelow`). The push changes the two bytes just below the stack pointer and no others
(`Memory.read_stacked`).
-/

namespace Z80

namespace Memory

/-- The memory with a word stored in the two bytes below an address. -/
def stacked (memory : Memory) (sp value : Word) : Memory :=
  (memory.write (sp - 1) (highByte value)).write (sp - 2) (lowByte value)

theorem read_stacked (memory : Memory) (sp value address : Word) :
    (memory.stacked sp value).read address =
      if address = sp - 2 then lowByte value
      else if address = sp - 1 then highByte value
      else memory.read address := by
  simp only [stacked, read_write, @eq_comm _ address]

theorem read_stacked_other (memory : Memory) {sp value address : Word} (hhigh : address ≠ sp - 1)
    (hlow : address ≠ sp - 2) : (memory.stacked sp value).read address = memory.read address := by
  rw [read_stacked, if_neg hlow, if_neg hhigh]

theorem readWord_stacked (memory : Memory) (sp value : Word) :
    (memory.stacked sp value).readWord (sp - 2) = value := by
  have hnext : sp - 2 + 1 = sp - 1 := by bv_omega
  have hne : sp - 1 ≠ sp - 2 := by bv_omega
  rw [readWord, hnext, read_stacked, read_stacked, if_neg hne, if_pos rfl, if_pos rfl,
    joinBytes_highByte_lowByte]

/-- Storing the word that stands there changes nothing. -/
theorem stacked_readWord (memory : Memory) (sp : Word) :
    memory.stacked sp (memory.readWord (sp - 2)) = memory := by
  have hnext : sp - 2 + 1 = sp - 1 := by bv_omega
  refine ext_read fun address => ?_
  rw [read_stacked, readWord, hnext, lowByte_joinBytes, highByte_joinBytes]
  split
  case isTrue hlow => rw [hlow]
  case isFalse =>
    split
    case isTrue hhigh => rw [hhigh]
    case isFalse => rfl

/-- Of two words stored in the same place the second stays. -/
theorem stacked_stacked (memory : Memory) (sp first second : Word) :
    (memory.stacked sp first).stacked sp second = memory.stacked sp second := by
  refine ext_read fun address => ?_
  simp only [read_stacked]
  split
  case isTrue => rfl
  case isFalse => split <;> rfl

end Memory

namespace Window

/-- A word fits below the stack pointer without going round the window. -/
def RoomBelow (window : Window) (sp : Word) : Prop :=
  (window.lowest + 2 ≤ window.position sp ∧ window.position sp ≤ window.highest ∧
      window.highest ≤ 0x10000) ∨
    (window.lowest = 0 ∧ window.highest = 0x10000)

/-- `RoomBelow` is decidable by comparisons of numbers. -/
instance (window : Window) (sp : Word) : Decidable (window.RoomBelow sp) :=
  inferInstanceAs (Decidable ((_ ∧ _) ∨ (_ ∧ _)))

variable {window : Window} {sp : Word}

/-- Two steps down from a pointer with room below it are plain decrements. -/
theorem RoomBelow.decrement (hroom : window.RoomBelow sp) :
    window.decrement sp = (sp - 1, none) ∧ window.decrement (sp - 1) = (sp - 2, none) := by
  rcases hroom with ⟨hlow, hhigh, hend⟩ | ⟨hlow, hhigh⟩
  · have hsp := ofNat_position window sp
    have hfirst := decrement_ofNat hend (by omega : window.lowest < window.position sp) hhigh
    have hsecond := decrement_ofNat hend
      (by omega : window.lowest < window.position sp - 1) (by omega)
    have hone : BitVec.ofNat 16 (window.position sp - 1) = sp - 1 := by bv_omega
    have htwo : BitVec.ofNat 16 (window.position sp - 1 - 1) = sp - 2 := by bv_omega
    rw [hone, htwo] at hsecond
    rw [hsp, hone] at hfirst
    exact ⟨hfirst, hsecond⟩
  · have htwo : sp - 1 - 1 = sp - 2 := by bv_omega
    have hsecond := decrement_of_full hlow (Nat.le_of_eq hhigh.symm) (sp - 1)
    rw [htwo] at hsecond
    exact ⟨decrement_of_full hlow (Nat.le_of_eq hhigh.symm) sp, hsecond⟩

/-- Two steps up lead back to it. -/
theorem RoomBelow.increment (hroom : window.RoomBelow sp) :
    window.increment (sp - 2) = (sp - 1, none) ∧ window.increment (sp - 1) = (sp, none) := by
  rcases hroom with ⟨hlow, hhigh, hend⟩ | ⟨_, hhigh⟩
  · have hsp := ofNat_position window sp
    have hfirst := increment_ofNat hend
      (by omega : window.position sp - 2 < window.highest)
    have hsecond := increment_ofNat hend
      (by omega : window.position sp - 1 < window.highest)
    have htwo : BitVec.ofNat 16 (window.position sp - 2) = sp - 2 := by bv_omega
    have hone : BitVec.ofNat 16 (window.position sp - 1) = sp - 1 := by bv_omega
    have hup : window.position sp - 2 + 1 = window.position sp - 1 := by omega
    have hback : window.position sp - 1 + 1 = window.position sp := by omega
    rw [htwo, hup, hone] at hfirst
    rw [hone, hback, hsp] at hsecond
    exact ⟨hfirst, hsecond⟩
  · have hup : sp - 2 + 1 = sp - 1 := by bv_omega
    have hback : sp - 1 + 1 = sp := by bv_omega
    have hfirst := increment_of_full (Nat.le_of_eq hhigh.symm) (sp - 2)
    have hsecond := increment_of_full (Nat.le_of_eq hhigh.symm) (sp - 1)
    rw [hup] at hfirst
    rw [hback] at hsecond
    exact ⟨hfirst, hsecond⟩

end Window

namespace Machine

variable {machine : Machine}

/-- If two steps down are plain decrements, a push stores the word there and reports nothing. -/
theorem push_of_decrement
    (hfirst : machine.window.decrement machine.registers.sp = (machine.registers.sp - 1, none))
    (hsecond : machine.window.decrement (machine.registers.sp - 1) =
      (machine.registers.sp - 2, none)) (value : Word) :
    machine.push value =
      { machine with
        registers := { machine.registers with sp := machine.registers.sp - 2 }
        memory := machine.memory.stacked machine.registers.sp value
        log := (machine.log.push
          (.memoryWrite (machine.registers.sp - 1) (highByte value))).push
          (.memoryWrite (machine.registers.sp - 2) (lowByte value)) } := by
  simp only [push_eq, hfirst, hsecond]
  rfl

/-- If two steps up are plain increments, a pop takes the word passed and reports nothing. -/
theorem pop_of_increment
    (hfirst : machine.window.increment machine.registers.sp = (machine.registers.sp + 1, none))
    (hsecond : machine.window.increment (machine.registers.sp + 1) =
      (machine.registers.sp + 2, none)) :
    machine.pop =
      (machine.readWord machine.registers.sp,
        { machine with
          registers := { machine.registers with sp := machine.registers.sp + 2 } }) := by
  simp only [pop_eq, hfirst, hsecond]
  rfl

/-- With room below the stack pointer, a push stores the word there and reports nothing. -/
theorem push_of_roomBelow (hroom : machine.window.RoomBelow machine.registers.sp) (value : Word) :
    machine.push value =
      { machine with
        registers := { machine.registers with sp := machine.registers.sp - 2 }
        memory := machine.memory.stacked machine.registers.sp value
        log := (machine.log.push
          (.memoryWrite (machine.registers.sp - 1) (highByte value))).push
          (.memoryWrite (machine.registers.sp - 2) (lowByte value)) } :=
  push_of_decrement hroom.decrement.1 hroom.decrement.2 value

/-- From two below a pointer with room, a pop takes the word stored there. -/
theorem pop_of_roomBelow {sp : Word} (hroom : machine.window.RoomBelow sp)
    (hsp : machine.registers.sp = sp - 2) :
    machine.pop =
      (machine.readWord (sp - 2),
        { machine with registers := { machine.registers with sp } }) := by
  obtain ⟨hfirst, hsecond⟩ := hroom.increment
  have hnext : machine.registers.sp + 1 = sp - 1 := by bv_omega
  have hback : machine.registers.sp + 2 = sp := by bv_omega
  have hpop := pop_of_increment (by rw [hnext, hsp]; exact hfirst)
    (by rw [hnext, hback]; exact hsecond)
  rw [hpop, hback, hsp]

end Machine

end Z80
