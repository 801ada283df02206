import Z80.Proofs.Stack.Effect

/-!
# Nested use of the stack

A program that uses the stack in a balanced way, pushing and calling at most `limit` words deep,
gets back every word that it stored (`lastInFirstOut`). The invariant is `StackFrame`: at depth `d`
the stack pointer stands `2 * d` below where it started, nothing was reported, and memory outside
the bytes in reach is as it was.
-/

namespace Z80

/-- An operation of a program on its stack. A call stores the program counter and a return goes on
at a stored word. -/
inductive StackOp where
  | push (value : Word)
  | call (address : Word)
  | pop
  | ret
deriving DecidableEq

namespace StackOp

/-- The words that the operation adds to the stack. -/
def change : StackOp → Int
  | .push _ | .call _ => 1
  | .pop | .ret => -1

theorem change_eq (op : StackOp) : op.change = 1 ∨ op.change = -1 := by
  cases op <;> simp [change]

/-- The words that a program has added to the stack. -/
def depth : List StackOp → Int
  | [] => 0
  | op :: program => op.change + depth program

theorem depth_take_succ {program : List StackOp} {count : Nat} {op : StackOp}
    (hop : program[count]? = some op) :
    depth (program.take (count + 1)) = depth (program.take count) + op.change := by
  induction program generalizing count with
  | nil => simp at hop
  | cons first program ih =>
      cases count with
      | zero =>
          obtain rfl : first = op := by simpa using hop
          simp [depth]
      | succ count =>
          have hrest := ih hop
          simp only [List.take_succ_cons, depth] at hrest ⊢
          omega

/-- The program never takes more than it has stored, has at most `limit` words on the stack, and
ends with none. -/
structure Balanced (program : List StackOp) (limit : Nat) : Prop where
  nonneg : ∀ count, 0 ≤ depth (program.take count)
  bounded : ∀ count, depth (program.take count) ≤ limit
  settled : depth program = 0

/-- Past the end of a program no prefix is new, so `Balanced` is decidable. -/
instance (program : List StackOp) (limit : Nat) : Decidable (Balanced program limit) :=
  decidable_of_iff
    ((∀ count < program.length + 1,
        0 ≤ depth (program.take count) ∧ depth (program.take count) ≤ limit) ∧
      depth program = 0) <| by
    constructor
    · rintro ⟨hpoints, hsettled⟩
      have hall : ∀ count,
          0 ≤ depth (program.take count) ∧ depth (program.take count) ≤ limit := by
        intro count
        by_cases hcount : count < program.length + 1
        · exact hpoints count hcount
        · rw [List.take_of_length_le (by omega), hsettled]
          omega
      exact ⟨fun count => (hall count).1, fun count => (hall count).2, hsettled⟩
    · intro hbalanced
      exact ⟨fun count _ => ⟨hbalanced.nonneg count, hbalanced.bounded count⟩,
        hbalanced.settled⟩

/-- The operation at `closing` belongs to the one at `opening`: it brings the stack back to the
depth from before `opening`, and the stack was deeper at every point between the two. -/
structure Matching (program : List StackOp) (opening closing : Nat) : Prop where
  lt : opening < closing
  closing_lt : closing < program.length
  back : depth (program.take (closing + 1)) = depth (program.take opening)
  deeper : ∀ count, opening < count → count ≤ closing →
    depth (program.take opening) < depth (program.take count)

/-- The last point at which a program was no deeper than a given depth. -/
theorem exists_last_le {program : List StackOp} {target : Int} (htarget : 0 ≤ target)
    (count : Nat) (hdeep : target < depth (program.take count)) :
    ∃ opening, opening < count ∧ depth (program.take opening) ≤ target ∧
      ∀ between, opening < between → between ≤ count →
        target < depth (program.take between) := by
  induction count with
  | zero =>
      simp only [List.take_zero, depth] at hdeep
      omega
  | succ count ih =>
      by_cases hle : depth (program.take count) ≤ target
      · refine ⟨count, by omega, hle, fun between hlow hhigh => ?_⟩
        obtain rfl : between = count + 1 := by omega
        exact hdeep
      · obtain ⟨opening, hlt, hopening, hbetween⟩ := ih (by omega)
        refine ⟨opening, by omega, hopening, fun between hlow hhigh => ?_⟩
        by_cases hlast : between = count + 1
        · rw [hlast]
          exact hdeep
        · exact hbetween between hlow (by omega)

/-- In a program that never takes more than it has stored, every operation that takes a word belongs
to one that stored it. -/
theorem exists_matching {program : List StackOp}
    (hnonneg : ∀ count, 0 ≤ depth (program.take count)) {closing : Nat} {op : StackOp}
    (hop : program[closing]? = some op) (htakes : op.change = -1) :
    ∃ opening, Matching program opening closing := by
  have hstep := depth_take_succ hop
  have hafter := hnonneg (closing + 1)
  have hdeep : depth (program.take (closing + 1)) < depth (program.take closing) := by omega
  -- The stack was last as low as it is afterwards just before the operation that stored the word.
  obtain ⟨opening, hlt, hle, hdeeper⟩ := exists_last_le hafter closing hdeep
  have hlength : closing < program.length := by
    obtain ⟨h, _⟩ := List.getElem?_eq_some_iff.1 hop
    exact h
  have hnext := hdeeper (opening + 1) (by omega) hlt
  have hopening := depth_take_succ (List.getElem?_eq_getElem (by omega : opening < program.length))
  have hchange := change_eq program[opening]
  have hsame : depth (program.take (closing + 1)) = depth (program.take opening) := by omega
  refine ⟨opening, hlt, hlength, hsame, fun count hlow hhigh => ?_⟩
  rw [← hsame]
  exact hdeeper count hlow hhigh

end StackOp

namespace Machine

open StackOp

/-- The machine after a stack operation. -/
def stackStep (machine : Machine) : StackOp → Machine
  | .push value => machine.push value
  | .call address => machine.call address
  | .pop => machine.pop.2
  | .ret => machine.ret

/-- The machine after the stack operations of a program. -/
def stackRun (machine : Machine) (program : List StackOp) : Machine :=
  program.foldl stackStep machine

/-- The word that an operation stores, if it stores one. -/
def stored? (machine : Machine) : StackOp → Option Word
  | .push value => some value
  | .call _ => some machine.registers.pc
  | .pop | .ret => none

/-- The word that an operation takes, if it takes one: what a pop yields, or where a return goes
on. -/
def taken? (machine : Machine) : StackOp → Option Word
  | .push _ | .call _ => none
  | .pop => some machine.pop.1
  | .ret => some machine.ret.registers.pc

variable {machine : Machine} {op : StackOp} {before after : Nat}

/-! ## One operation -/

/-- What an operation may change, as it moves the stack pointer from one position to another: at
most the bytes that a stack pointer moving down passes over. -/
structure MovesStack (machine : Machine) (before after : Nat) (next : Machine) : Prop where
  window : next.window = machine.window
  sp : next.registers.sp = BitVec.ofNat 16 after
  faults : next.faults = machine.faults
  memory : ∀ address : Word, address.toNat < after ∨ before ≤ address.toNat →
    next.memory.read address = machine.memory.read address

/-- Going on elsewhere afterwards makes no difference to the stack. -/
theorem MovesStack.jump {next : Machine} (hmoves : machine.MovesStack before after next)
    (address : Word) : machine.MovesStack before after (next.jump address) :=
  ⟨hmoves.window, hmoves.sp, hmoves.faults, hmoves.memory⟩

/-- A word at or above the position that the stack pointer left stays. -/
theorem MovesStack.readWord {next : Machine} (hmoves : machine.MovesStack before after next)
    {place : Nat} (hplace : before ≤ place) (hend : place + 2 ≤ 0x10000) :
    next.readWord (BitVec.ofNat 16 place) = machine.readWord (BitVec.ofNat 16 place) := by
  have hlow := hmoves.memory (BitVec.ofNat 16 place) (by rw [BitVec.toNat_ofNat]; omega)
  have hhigh := hmoves.memory (BitVec.ofNat 16 (place + 1)) (by rw [BitVec.toNat_ofNat]; omega)
  rw [readWord_ofNat, readWord_ofNat, hlow, hhigh]

/-- With room for it, a push moves the stack pointer down by a word. -/
theorem push_movesStack (hend : machine.window.highest ≤ 0x10000)
    (hsp : machine.registers.sp = BitVec.ofNat 16 (after + 2))
    (hlow : machine.window.lowest ≤ after) (hhigh : after + 2 ≤ machine.window.highest)
    (value : Word) : machine.MovesStack (after + 2) after (machine.push value) := by
  rw [push_of_room hend hsp (by omega) hhigh]
  refine ⟨rfl, rfl, ?_, fun address houtside => ?_⟩
  · simp [faults, List.filterMap_cons, Event.fault?]
  · have hhighPlace : BitVec.ofNat 16 (after + 1) ≠ address := by
      rintro rfl
      rw [BitVec.toNat_ofNat] at houtside
      omega
    have hlowPlace : BitVec.ofNat 16 after ≠ address := by
      rintro rfl
      rw [BitVec.toNat_ofNat] at houtside
      omega
    exact (Memory.read_write_other _ _ hlowPlace).trans (Memory.read_write_other _ _ hhighPlace)

/-- With a word above it, a pop moves the stack pointer up by a word. -/
theorem pop_movesStack (hend : machine.window.highest ≤ 0x10000)
    (hsp : machine.registers.sp = BitVec.ofNat 16 before)
    (hhigh : before + 2 ≤ machine.window.highest) :
    machine.MovesStack before (before + 2) machine.pop.2 := by
  rw [pop_of_room hend hsp hhigh]
  exact ⟨rfl, rfl, rfl, fun _ _ => rfl⟩

/-- With room for it, an operation moves the stack pointer by a word. -/
theorem stackStep_movesStack (hend : machine.window.highest ≤ 0x10000)
    (hsp : machine.registers.sp = BitVec.ofNat 16 before)
    (hafter : (after : Int) = before - 2 * op.change) (hlow : machine.window.lowest ≤ after)
    (hbefore : before ≤ machine.window.highest) (hhigh : after ≤ machine.window.highest) :
    machine.MovesStack before after (machine.stackStep op) := by
  cases op with
  | push value =>
      obtain rfl : before = after + 2 := by simp only [change] at hafter; omega
      exact push_movesStack hend hsp hlow hbefore value
  | call address =>
      obtain rfl : before = after + 2 := by simp only [change] at hafter; omega
      exact (push_movesStack hend hsp hlow hbefore machine.registers.pc).jump address
  | pop =>
      obtain rfl : after = before + 2 := by simp only [change] at hafter; omega
      exact pop_movesStack hend hsp hhigh
  | ret =>
      obtain rfl : after = before + 2 := by simp only [change] at hafter; omega
      exact (pop_movesStack hend hsp hhigh).jump machine.pop.1

theorem readWord_jump (machine : Machine) (address place : Word) :
    (machine.jump address).readWord place = machine.readWord place :=
  rfl

/-- An operation that stores a word leaves it at the new stack pointer. -/
theorem stored_eq (hend : machine.window.highest ≤ 0x10000)
    (hsp : machine.registers.sp = BitVec.ofNat 16 (after + 2))
    (hlow : machine.window.lowest ≤ after) (hhigh : after + 2 ≤ machine.window.highest)
    (hstores : op.change = 1) :
    machine.stored? op = some ((machine.stackStep op).readWord (BitVec.ofNat 16 after)) := by
  have hpush := readWord_push_of_room hend hsp hlow hhigh
  cases op with
  | push value => exact congrArg some (hpush value).symm
  | call address =>
      show some machine.registers.pc = some (((machine.push machine.registers.pc).jump
        address).readWord (BitVec.ofNat 16 after))
      rw [readWord_jump, hpush]
  | pop => simp [change] at hstores
  | ret => simp [change] at hstores

/-- An operation that takes a word takes the one at the stack pointer. -/
theorem taken_eq (hend : machine.window.highest ≤ 0x10000)
    (hsp : machine.registers.sp = BitVec.ofNat 16 before)
    (hhigh : before + 2 ≤ machine.window.highest) (htakes : op.change = -1) :
    machine.taken? op = some (machine.readWord (BitVec.ofNat 16 before)) := by
  have hpop := congrArg Prod.fst (pop_of_room hend hsp hhigh)
  cases op with
  | push value => simp [change] at htakes
  | call address => simp [change] at htakes
  | pop => exact congrArg some hpop
  | ret => exact congrArg some hpop

/-! ## Programs -/

theorem stackRun_take_succ {program : List StackOp} {count : Nat}
    (hop : program[count]? = some op) :
    machine.stackRun (program.take (count + 1)) =
      (machine.stackRun (program.take count)).stackStep op := by
  simp [stackRun, List.take_add_one, hop]

/-- The invariant of a program that started at position `start` and has added `depth` words, never
more than `limit`. -/
structure StackFrame (machine : Machine) (start limit : Nat) (depth : Int) (next : Machine) :
    Prop where
  window : next.window = machine.window
  sp : ∃ place : Nat, (place : Int) = start - 2 * depth ∧
    next.registers.sp = BitVec.ofNat 16 place
  faults : next.faults = machine.faults
  memory : ∀ address : Word, address.toNat < start - 2 * limit ∨ start ≤ address.toNat →
    next.memory.read address = machine.memory.read address

section

variable {program : List StackOp} {start limit : Nat}
  (hend : machine.window.highest ≤ 0x10000) (hhigh : start ≤ machine.window.highest)
  (hroom : machine.window.lowest + 2 * limit ≤ start) (hbalanced : Balanced program limit)

include hend hhigh hroom hbalanced

/-- The step of the invariant: the operation after a prefix moves the stack pointer from the
position of that prefix to the next one. -/
theorem movesStack_take {count : Nat} (hop : program[count]? = some op)
    (hframe : machine.StackFrame start limit (depth (program.take count))
      (machine.stackRun (program.take count))) :
    ∃ before after : Nat, (before : Int) = start - 2 * depth (program.take count) ∧
      (after : Int) = start - 2 * depth (program.take (count + 1)) ∧
      (machine.stackRun (program.take count)).registers.sp = BitVec.ofNat 16 before ∧
      (machine.stackRun (program.take count)).MovesStack before after
        (machine.stackRun (program.take (count + 1))) := by
  obtain ⟨before, hbefore, hplace⟩ := hframe.sp
  have hstep := depth_take_succ hop
  have hnonneg := hbalanced.nonneg (count + 1)
  have hbounded := hbalanced.bounded (count + 1)
  have hdepth := hbalanced.nonneg count
  obtain ⟨after, hafter⟩ : ∃ after : Nat,
      (after : Int) = start - 2 * depth (program.take (count + 1)) :=
    ⟨(start - 2 * depth (program.take (count + 1))).toNat, by omega⟩
  refine ⟨before, after, hbefore, hafter, hplace, ?_⟩
  rw [stackRun_take_succ hop]
  apply stackStep_movesStack _ hplace (by omega) <;> rw [hframe.window] <;> omega

variable (hsp : machine.registers.sp = BitVec.ofNat 16 start)

include hsp

/-- The invariant holds after every prefix of the program. -/
theorem stackFrame_take (count : Nat) (hcount : count ≤ program.length) :
    machine.StackFrame start limit (depth (program.take count))
      (machine.stackRun (program.take count)) := by
  induction count with
  | zero => exact ⟨rfl, ⟨start, by simp [depth], hsp⟩, rfl, fun _ _ => rfl⟩
  | succ count ih =>
      have hframe := ih (by omega)
      have hop := List.getElem?_eq_getElem (by omega : count < program.length)
      obtain ⟨before, after, hbefore, hafter, _, hmoves⟩ :=
        movesStack_take hend hhigh hroom hbalanced hop hframe
      have hnonneg := hbalanced.nonneg count
      have hbounded := hbalanced.bounded (count + 1)
      refine ⟨hmoves.window.trans hframe.window, ⟨after, hafter, hmoves.sp⟩,
        hmoves.faults.trans hframe.faults, fun address houtside => ?_⟩
      exact (hmoves.memory address (by omega)).trans (hframe.memory address houtside)

/-- While the program stays deeper than it was before `opening`, the word that was stored there
stays. -/
theorem readWord_take {opening count place : Nat} (hlt : opening < count)
    (hcount : count ≤ program.length)
    (hdeeper : ∀ between, opening < between → between ≤ count →
      depth (program.take opening) < depth (program.take between))
    (hplace : (place : Int) = start - 2 * (depth (program.take opening) + 1)) :
    (machine.stackRun (program.take count)).readWord (BitVec.ofNat 16 place) =
      (machine.stackRun (program.take (opening + 1))).readWord (BitVec.ofNat 16 place) := by
  induction count with
  | zero => omega
  | succ count ih =>
      by_cases hfirst : opening = count
      · rw [hfirst]
      -- A deeper stack ends below the word, so an operation at that depth does not reach it.
      · have hframe := stackFrame_take hend hhigh hroom hbalanced hsp count (by omega)
        have hop := List.getElem?_eq_getElem (by omega : count < program.length)
        obtain ⟨before, after, hbefore, _, _, hmoves⟩ :=
          movesStack_take hend hhigh hroom hbalanced hop hframe
        have hdepth := hdeeper count (by omega) (by omega)
        have hnonneg := hbalanced.nonneg opening
        rw [hmoves.readWord (by omega) (by omega)]
        exact ih (by omega) (by omega) fun between hlow hhigh => hdeeper between hlow (by omega)

/-- An operation takes the word that its matching operation stored. -/
theorem taken_eq_stored {opening closing : Nat} (hmatching : Matching program opening closing) :
    ∃ storing taking value,
      program[opening]? = some storing ∧ program[closing]? = some taking ∧
      (machine.stackRun (program.take opening)).stored? storing = some value ∧
      (machine.stackRun (program.take closing)).taken? taking = some value := by
  obtain ⟨hlt, hclosing, hback, hdeeper⟩ := hmatching
  have hopen := List.getElem?_eq_getElem (by omega : opening < program.length)
  have hclose := List.getElem?_eq_getElem hclosing
  have hopenFrame := stackFrame_take hend hhigh hroom hbalanced hsp opening (by omega)
  have hcloseFrame := stackFrame_take hend hhigh hroom hbalanced hsp closing (by omega)
  -- The depths on both sides of the two operations say that one stores and the other takes.
  have hopenStep := depth_take_succ hopen
  have hcloseStep := depth_take_succ hclose
  have hopenChange := change_eq program[opening]
  have hcloseChange := change_eq program[closing]
  have hopenDepth := hdeeper (opening + 1) (by omega) hlt
  have hcloseDepth := hdeeper closing hlt (Nat.le_refl closing)
  have hnonneg := hbalanced.nonneg opening
  have hbounded := hbalanced.bounded (opening + 1)
  -- Both find the word at one place.
  obtain ⟨place, hplace⟩ : ∃ place : Nat,
      (place : Int) = start - 2 * (depth (program.take opening) + 1) :=
    ⟨(start - 2 * (depth (program.take opening) + 1)).toNat, by omega⟩
  obtain ⟨openPlace, hopenPlace, hopenSp⟩ := hopenFrame.sp
  obtain ⟨closePlace, hclosePlace, hcloseSp⟩ := hcloseFrame.sp
  obtain rfl : openPlace = place + 2 := by omega
  obtain rfl : closePlace = place := by omega
  have hstored := stored_eq (by rw [hopenFrame.window]; exact hend) hopenSp
    (by rw [hopenFrame.window]; omega) (by rw [hopenFrame.window]; omega)
    (by omega : program[opening].change = 1)
  have htaken := taken_eq (by rw [hcloseFrame.window]; exact hend) hcloseSp
    (by rw [hcloseFrame.window]; omega) (by omega : program[closing].change = -1)
  have hkept := readWord_take hend hhigh hroom hbalanced hsp hlt (by omega) hdeeper hplace
  rw [stackRun_take_succ hopen] at hkept
  exact ⟨_, _, _, hopen, hclose, hstored, by rw [htaken, hkept]⟩

end

/-! ## The discipline -/

/-- The stack after a program with at most `limit` words on it: the pointer is back, nothing was
reported, memory outside the bytes in reach is as it was, and every operation that takes a word
takes the one that its matching operation stored. -/
structure LastInFirstOut (machine : Machine) (program : List StackOp) (limit : Nat) : Prop where
  sp : (machine.stackRun program).registers.sp = machine.registers.sp
  faults : (machine.stackRun program).faults = machine.faults
  memory : ∀ address : Word,
    address.toNat < machine.window.position machine.registers.sp - 2 * limit ∨
      machine.window.position machine.registers.sp ≤ address.toNat →
    (machine.stackRun program).memory.read address = machine.memory.read address
  matched : ∀ closing taking, program[closing]? = some taking → taking.change = -1 →
    ∃ opening, Matching program opening closing
  taken : ∀ opening closing, Matching program opening closing →
    ∃ storing taking value,
      program[opening]? = some storing ∧ program[closing]? = some taking ∧
      (machine.stackRun (program.take opening)).stored? storing = some value ∧
      (machine.stackRun (program.take closing)).taken? taking = some value

/-- A balanced program whose words fit between the lowest position and the stack pointer gets back
every word that it stored, up to both edges of the window. -/
theorem lastInFirstOut (machine : Machine) (program : List StackOp) (limit : Nat)
    (hend : machine.window.highest ≤ 0x10000)
    (hhigh : machine.window.position machine.registers.sp ≤ machine.window.highest)
    (hroom : machine.window.lowest + 2 * limit ≤ machine.window.position machine.registers.sp)
    (hbalanced : Balanced program limit) : machine.LastInFirstOut program limit := by
  have hsp := (Window.ofNat_position machine.window machine.registers.sp).symm
  have hframe := stackFrame_take hend hhigh hroom hbalanced hsp program.length (Nat.le_refl _)
  rw [List.take_length, hbalanced.settled] at hframe
  obtain ⟨place, hplace, hback⟩ := hframe.sp
  obtain rfl : place = machine.window.position machine.registers.sp := by omega
  exact
    { sp := hback.trans hsp.symm
      faults := hframe.faults
      memory := hframe.memory
      matched := fun _ _ htaking htakes => exists_matching hbalanced.nonneg htaking htakes
      taken := fun _ _ => taken_eq_stored hend hhigh hroom hbalanced hsp }

/-- Three words fill a window of six bytes at the end of the address space. -/
theorem lastInFirstOut_full_window :
    let machine := withStack 0xFFFA 0x10000 0
    let program := [.push 0x1234, .call 0x0038, .pop, .push 0x5678, .push 0x9ABC, .pop, .ret, .pop]
    machine.window.highest ≤ 0x10000 ∧
      machine.window.position machine.registers.sp ≤ machine.window.highest ∧
      machine.window.lowest + 2 * 3 ≤ machine.window.position machine.registers.sp ∧
      Balanced program 3 ∧ machine.LastInFirstOut program 3 := by
  refine ⟨by decide, by decide, by decide, by decide, ?_⟩
  exact lastInFirstOut (withStack 0xFFFA 0x10000 0) _ 3 (by decide) (by decide) (by decide)
    (by decide)

end Machine

end Z80
