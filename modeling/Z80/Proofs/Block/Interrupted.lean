import Z80.Proofs.Block.Copy
import Z80.Proofs.Interrupts.Raising
import Z80.Proofs.Interrupts.Transparent

/-!
# Block transfers under interrupts

A repeating block transfer can be interrupted before each of its rounds. Where the interrupt routine
returns at once and the stack keeps away from the bytes that the transfer reads, the transfer comes
to what it comes to without interrupts, and each request costs two steps (`copiedUnderInterrupts`).

`Resembles` is what an interrupted run shares with the plain one at every round. A round keeps it by
moving both machines on, and an interrupt keeps it by leading the one machine back to where it was.
-/

namespace Z80

/-- The address is one of the two just below a stack pointer. -/
def BelowStack (sp address : Word) : Prop :=
  address = sp - 1 ∨ address = sp - 2

/-- `BelowStack` is decidable by comparing words. -/
instance (sp address : Word) : Decidable (BelowStack sp address) :=
  inferInstanceAs (Decidable (_ ∨ _))

namespace Memory

/-- A copy changes no address that is not one of its targets. -/
theorem read_copied_other (memory : Memory) (direction : Direction) (source target address : Word)
    {count : Nat} (hother : ∀ earlier < count, direction.advance target earlier ≠ address) :
    (memory.copied direction source target count).read address = memory.read address := by
  induction count with
  | zero => rfl
  | succ count ih =>
      rw [copied, read_write_other _ _ (hother count (by omega))]
      exact ih fun earlier hearlier => hother earlier (by omega)

theorem read_stacked_of_not_below (memory : Memory) {sp value address : Word}
    (hnot : ¬BelowStack sp address) :
    (memory.stacked sp value).read address = memory.read address :=
  read_stacked_other memory (fun hhigh => hnot (.inl hhigh)) fun hlow => hnot (.inr hlow)

/-- A routine that begins outside the two bytes below a stack pointer is not touched there. -/
theorem ReturnsAtOnce.stacked {memory : Memory} (hroutine : memory.ReturnsAtOnce)
    {sp : Word} (value : Word) (hlead : ¬BelowStack sp 0x0066) (hopcode : ¬BelowStack sp 0x0067) :
    (memory.stacked sp value).ReturnsAtOnce where
  lead := by rw [read_stacked_of_not_below memory hlead, hroutine.lead]
  opcode := by
    rw [read_stacked_of_not_below memory hopcode]
    exact hroutine.opcode

end Memory

namespace Machine

variable {start machine plain : Machine} {direction : Direction} {count : Nat}

/-! ## What interrupted and plain runs share -/

/-- An interrupted machine and a plain one have the same registers but for `R`, the same gate for
maskable requests, and the same memory apart from the two bytes below the stack pointer. -/
structure Resembles (machine plain : Machine) : Prop where
  registers : machine.registers = { plain.registers with r := machine.registers.r }
  gate : machine.interrupts.iff1 = plain.interrupts.iff1
  memory : ∀ address, ¬BelowStack plain.registers.sp address →
    machine.read address = plain.read address

theorem Resembles.refl (machine : Machine) : machine.Resembles machine :=
  ⟨rfl, rfl, fun _ _ => rfl⟩

/-- A round whose source is not below the stack pointer keeps the resemblance. -/
theorem Resembles.step (hresembles : machine.Resembles plain) (hexecutes : machine.Executes)
    (hcode : machine.AtRepeat .load direction) (hplain : plain.Executes)
    (hplainCode : plain.AtRepeat .load direction)
    (hsource : ¬BelowStack plain.registers.sp plain.registers.hl) :
    machine.step.Resembles plain.step := by
  have hvalue : machine.read machine.registers.hl = plain.read plain.registers.hl := by
    rw [hresembles.registers]
    exact hresembles.memory _ hsource
  rw [step_copy hexecutes hcode, step_copy hplain hplainCode]
  simp only [hvalue]
  rw [hresembles.registers]
  refine ⟨rfl, hresembles.gate, ?_⟩
  intro address hnot
  have hread := hresembles.memory address hnot
  unfold read at hread ⊢
  simp only [Memory.read_write, hread]

/-- A non-maskable request that is served and returned from keeps it too. -/
theorem Resembles.interrupted (hresembles : machine.Resembles plain)
    (hraised : machine.devices.lines.nonMaskable = true)
    (hroom : machine.window.RoomBelow machine.registers.sp)
    (hroutine : (machine.push machine.registers.pc).memory.ReturnsAtOnce) :
    machine.step.step.Resembles plain := by
  have hsp : machine.registers.sp = plain.registers.sp := by rw [hresembles.registers]
  rw [step_step_of_returnsAtOnce hraised hroom hroutine]
  refine ⟨?_, hresembles.gate, ?_⟩
  · rw [hresembles.registers]
  · intro address hnot
    exact (Memory.read_stacked_of_not_below _ (hsp ▸ hnot)).trans (hresembles.memory address hnot)

/-! ## Interrupts before the rounds -/

/-- What the devices raise before each step of a round. An interrupted round begins with a
non-maskable request, whose two steps come before the step of the round itself. -/
def roundRaises : Bool → List Lines
  | true => [{ nonMaskable := true }, {}, {}]
  | false => [{}]

/-- What they raise before each step of a number of rounds, some of which are interrupted. -/
def raisesBefore (interrupted : Nat → Bool) (rounds : Nat) : List Lines :=
  (List.range rounds).flatMap fun round => roundRaises (interrupted round)

theorem raisesBefore_succ (interrupted : Nat → Bool) (rounds : Nat) :
    raisesBefore interrupted (rounds + 1) =
      raisesBefore interrupted rounds ++ roundRaises (interrupted rounds) := by
  simp [raisesBefore, List.range_succ]

theorem runRaising_roundRaises_false (machine : Machine) :
    machine.runRaising (roundRaises false) = machine.step := by
  simp [roundRaises]

theorem runRaising_roundRaises_true (machine : Machine) :
    machine.runRaising (roundRaises true) =
      (machine.raise { nonMaskable := true }).step.step.step := by
  simp [roundRaises]

/-- Each interrupt takes two steps. -/
theorem length_raisesBefore (interrupted : Nat → Bool) (rounds : Nat) :
    (raisesBefore interrupted rounds).length =
      rounds + 2 * (List.range rounds).countP interrupted := by
  induction rounds with
  | zero => rfl
  | succ rounds ih =>
      rw [raisesBefore_succ, List.length_append, ih, List.range_succ, List.countP_append]
      cases hinterrupted : interrupted rounds with
      | false => simp [hinterrupted, roundRaises]; omega
      | true => simp [hinterrupted, roundRaises]; omega

/-- A transfer that interrupts cannot disturb: a word fits below the stack pointer, away from the
sources, the instruction and the interrupt routine, and the routine returns at once and is no
target. A target below the stack pointer does no harm, since nothing reads it. -/
structure Interruptible (start : Machine) (direction : Direction) : Prop where
  room : start.window.RoomBelow start.registers.sp
  source : ∀ count < wordRounds start.registers.bc,
    ¬BelowStack start.registers.sp (direction.advance start.registers.hl count)
  lead : ¬BelowStack start.registers.sp start.registers.pc
  opcode : ¬BelowStack start.registers.sp (start.registers.pc + 1)
  routineLead : ¬BelowStack start.registers.sp 0x0066
  routineOpcode : ¬BelowStack start.registers.sp 0x0067
  routine : start.memory.ReturnsAtOnce
  target : ∀ count < wordRounds start.registers.bc,
    direction.advance start.registers.de count ≠ 0x0066 ∧
      direction.advance start.registers.de count ≠ 0x0067

/-- With a counter of zero every address is a source, also those below the stack pointer. -/
theorem Interruptible.counter_ne_zero (hinterruptible : start.Interruptible direction) :
    start.registers.bc ≠ 0 := by
  intro hzero
  have hrounds : wordRounds start.registers.bc = 0x10000 := if_pos hzero
  have hsource := hinterruptible.source
  rw [hrounds] at hsource
  cases direction with
  | up =>
      refine hsource (start.registers.sp - 1 - start.registers.hl).toNat (by omega) (.inl ?_)
      simp only [Direction.advance, BitVec.ofNat_toNat, BitVec.setWidth_eq]
      bv_omega
  | down =>
      refine hsource (start.registers.hl - (start.registers.sp - 1)).toNat (by omega) (.inl ?_)
      simp only [Direction.advance, BitVec.ofNat_toNat, BitVec.setWidth_eq]
      bv_omega

/-- The transfer is under way: there is more to copy, and the machine stands on the instruction or
at the interrupt routine. -/
structure Underway (start machine : Machine) : Prop where
  counter : machine.registers.bc ≠ 0
  pc : machine.registers.pc = start.registers.pc ∨ machine.registers.pc = 0x0066

/-- The invariant of an interrupted transfer: what holds after a number of rounds and all interrupts
before them. -/
structure Unnoticed (start : Machine) (count : Nat) (machine : Machine) : Prop where
  resembles : machine.Resembles (run count start)
  sp : machine.registers.sp = start.registers.sp
  window : machine.window = start.window
  running : machine.halted = false
  lines : machine.devices.lines = {}

theorem unnoticed_zero (hrunning : start.halted = false) (hlines : start.devices.lines = {}) :
    Unnoticed start 0 start :=
  ⟨.refl start, rfl, rfl, hrunning, hlines⟩

theorem Unnoticed.executes (hunnoticed : Unnoticed start count machine) : machine.Executes :=
  ⟨hunnoticed.running, by rw [hunnoticed.lines], .inr (by rw [hunnoticed.lines])⟩

theorem Unnoticed.sp_plain (hunnoticed : Unnoticed start count machine) :
    (run count start).registers.sp = start.registers.sp := by
  rw [← hunnoticed.sp, hunnoticed.resembles.registers]

theorem Unnoticed.pc (hunnoticed : Unnoticed start count machine)
    (hcopying : Copying start direction count (run count start)) :
    machine.registers.pc = start.registers.pc := by
  rw [hunnoticed.resembles.registers]
  exact hcopying.pc

section
variable (hinterruptible : start.Interruptible direction)
variable (hcopying : Copying start direction count (run count start))
variable (hcount : count < wordRounds start.registers.bc)
variable (hunnoticed : Unnoticed start count machine)
include hinterruptible hcopying hunnoticed

/-- Before a round, the interrupted machine stands on the instruction as well. -/
theorem Unnoticed.atRepeat : machine.AtRepeat .load direction := by
  have hsp := hunnoticed.sp_plain
  have hpc := hunnoticed.pc hcopying
  have hlead := hunnoticed.resembles.memory start.registers.pc (hsp ▸ hinterruptible.lead)
  have hopcode := hunnoticed.resembles.memory (start.registers.pc + 1)
    (hsp ▸ hinterruptible.opcode)
  have hcode := hcopying.code
  exact
    { lead := by rw [hpc, hlead, ← hcopying.pc, hcode.lead]
      opcode := by rw [hpc, hopcode, ← hcopying.pc, hcode.opcode] }

include hcount

/-- The interrupt routine is as it was. -/
theorem Unnoticed.routine : machine.memory.ReturnsAtOnce := by
  have hsp := hunnoticed.sp_plain
  have hlead := hunnoticed.resembles.memory 0x0066 (hsp ▸ hinterruptible.routineLead)
  have hopcode := hunnoticed.resembles.memory 0x0067 (hsp ▸ hinterruptible.routineOpcode)
  unfold read at hlead hopcode
  rw [hcopying.memory, Memory.read_copied_other _ _ _ _ _ fun earlier hearlier =>
    (hinterruptible.target earlier (by omega)).1] at hlead
  rw [hcopying.memory, Memory.read_copied_other _ _ _ _ _ fun earlier hearlier =>
    (hinterruptible.target earlier (by omega)).2] at hopcode
  exact
    { lead := hlead.trans hinterruptible.routine.lead
      opcode := hopcode ▸ hinterruptible.routine.opcode }

/-- A round brings both machines to the next one. -/
theorem Unnoticed.round : Unnoticed start (count + 1) machine.step := by
  have hcode := hunnoticed.atRepeat hinterruptible hcopying
  have hsource : ¬BelowStack (run count start).registers.sp (run count start).registers.hl := by
    rw [hunnoticed.sp_plain, hcopying.source]
    exact hinterruptible.source count hcount
  have hstep := step_copy hunnoticed.executes hcode
  exact
    { resembles := by
        rw [run_succ]
        exact hunnoticed.resembles.step hunnoticed.executes hcode hcopying.executes hcopying.code
          hsource
      sp := by rw [hstep]; exact hunnoticed.sp
      window := by rw [hstep]; exact hunnoticed.window
      running := by rw [hstep]; exact hunnoticed.running
      lines := by rw [hstep]; exact hunnoticed.lines }

/-- Before a round there is more to copy. -/
theorem Unnoticed.underway : Underway start machine where
  counter := by
    have hpositive := hinterruptible.counter_ne_zero
    rw [hunnoticed.resembles.registers]
    change (run count start).registers.bc ≠ 0
    rw [hcopying.counter]
    unfold wordRounds at hcount
    rw [if_neg hpositive] at hcount
    bv_omega
  pc := .inl (hunnoticed.pc hcopying)

/-- A request before a round is served and returned from in two steps, and the machine is back
before that round. -/
theorem Unnoticed.interrupted :
    Underway start (machine.raise { nonMaskable := true }).step ∧
      Unnoticed start count (machine.raise { nonMaskable := true }).step.step := by
  have hunderway := hunnoticed.underway hinterruptible hcopying hcount
  have hraised : (machine.raise { nonMaskable := true }).devices.lines.nonMaskable = true :=
    Bool.or_true _
  have hroom : (machine.raise { nonMaskable := true }).window.RoomBelow
      (machine.raise { nonMaskable := true }).registers.sp := by
    have hstart := hinterruptible.room
    rw [← hunnoticed.window, ← hunnoticed.sp] at hstart
    exact hstart
  have hroutine : ((machine.raise { nonMaskable := true }).push
      (machine.raise { nonMaskable := true }).registers.pc).memory.ReturnsAtOnce := by
    rw [push_of_roomBelow hroom]
    exact (hunnoticed.routine hinterruptible hcopying hcount).stacked _
      (hunnoticed.sp.symm ▸ hinterruptible.routineLead)
      (hunnoticed.sp.symm ▸ hinterruptible.routineOpcode)
  have hresembles : (machine.raise { nonMaskable := true }).Resembles (run count start) :=
    ⟨hunnoticed.resembles.registers, hunnoticed.resembles.gate, hunnoticed.resembles.memory⟩
  have hserved := step_nonMaskable_of_room hraised hroom
  have hreturned := step_step_of_returnsAtOnce hraised hroom hroutine
  refine ⟨?_, ?_⟩
  -- Serving the request moves the program counter to the routine and no other part of the copy.
  · rw [hserved]
    exact ⟨hunderway.counter, .inr rfl⟩
  · exact
      { resembles := hresembles.interrupted hraised hroom hroutine
        sp := by rw [hreturned]; exact hunnoticed.sp
        window := by rw [hreturned]; exact hunnoticed.window
        running := by rw [hreturned]
        lines := by
          rw [hreturned]
          change Lines.lowerNonMaskable _ = _
          simp [raise, updateLines, hunnoticed.lines, Lines.lowerNonMaskable] }

/-- The steps of a round and of its interrupt, if there is one. The transfer is under way before
each of them, and they end before the next round. -/
theorem Unnoticed.runRaising_round (isInterrupted : Bool) :
    Unnoticed start (count + 1) (machine.runRaising (roundRaises isInterrupted)) ∧
      ∀ steps < (roundRaises isInterrupted).length,
        Underway start (machine.runRaising ((roundRaises isInterrupted).take steps)) := by
  have hunderway := hunnoticed.underway hinterruptible hcopying hcount
  cases isInterrupted with
  | false =>
      refine ⟨?_, ?_⟩
      · rw [runRaising_roundRaises_false]
        exact hunnoticed.round hinterruptible hcopying hcount
      · intro steps hsteps
        have hfirst : steps = 0 := Nat.lt_one_iff.1 hsteps
        rw [hfirst]
        exact hunderway
  | true =>
      obtain ⟨hserving, hreturned⟩ := hunnoticed.interrupted hinterruptible hcopying hcount
      refine ⟨?_, ?_⟩
      · rw [runRaising_roundRaises_true]
        exact hreturned.round hinterruptible hcopying hcount
      · intro steps hsteps
        have hbehind := hreturned.underway hinterruptible hcopying hcount
        match steps, hsteps with
        | 0, _ => exact hunderway
        | 1, _ => exact hserving
        | 2, _ => simpa [roundRaises] using hbehind

end

/-! ## The whole transfer -/

/-- A run with interrupts keeps the invariant in every round. -/
theorem unnoticed_runRaising (hrunning : start.halted = false)
    (hlines : start.devices.lines = {}) (hcode : start.AtRepeat .load direction)
    (hspares : start.SparesCode direction)
    (hinterruptible : start.Interruptible direction) (interrupted : Nat → Bool)
    (hcount : count ≤ wordRounds start.registers.bc) :
    Unnoticed start count (start.runRaising (raisesBefore interrupted count)) ∧
      ∀ steps < (raisesBefore interrupted count).length,
        Underway start (start.runRaising ((raisesBefore interrupted count).take steps)) := by
  -- By induction on the rounds, each of which appends its own steps to the run.
  induction count with
  | zero =>
      refine ⟨unnoticed_zero hrunning hlines, ?_⟩
      intro steps hsteps
      exact absurd hsteps (Nat.not_lt_zero steps)
  | succ count ih =>
      have hexecutes := (unnoticed_zero hrunning hlines).executes
      have hcopying := copying_run hexecutes hcode hspares (by omega : count < _)
      obtain ⟨hunnoticed, hbefore⟩ := ih (by omega)
      obtain ⟨hnext, hround⟩ :=
        hunnoticed.runRaising_round hinterruptible hcopying (by omega) (interrupted count)
      rw [raisesBefore_succ, runRaising_append]
      refine ⟨hnext, ?_⟩
      intro steps hsteps
      rw [List.length_append] at hsteps
      rw [List.take_append, runRaising_append]
      -- A step lies in an earlier round or in the last one.
      by_cases hearlier : steps < (raisesBefore interrupted count).length
      · rw [Nat.sub_eq_zero_of_le (Nat.le_of_lt hearlier), List.take_zero, runRaising_nil]
        exact hbefore steps hearlier
      · rw [List.take_of_length_le (Nat.le_of_not_lt hearlier)]
        exact hround _ (by omega)

/-- A block transfer of a number of rounds, some of which are interrupted: how many steps it takes,
and that it comes to what it comes to without interrupts. -/
structure CopiedUnderInterrupts (start : Machine) (interrupted : Nat → Bool) (rounds : Nat) :
    Prop where
  /-- Each interrupt costs two steps. -/
  length : (raisesBefore interrupted rounds).length =
    rounds + 2 * (List.range rounds).countP interrupted
  /-- After each number of rounds, and so after the last, the run is like the plain one. -/
  resembles : ∀ count ≤ rounds,
    (start.runRaising (raisesBefore interrupted count)).Resembles (run count start)
  /-- The transfer does not come to its end before the last step. -/
  underway : ∀ steps < (raisesBefore interrupted rounds).length,
    Underway start (start.runRaising ((raisesBefore interrupted rounds).take steps))
  counter : (start.runRaising (raisesBefore interrupted rounds)).registers.bc = 0
  pc : (start.runRaising (raisesBefore interrupted rounds)).registers.pc = start.registers.pc + 2

/-- A repeating block transfer that spares its own code, its stack and the interrupt routine copies
its bytes whatever rounds are interrupted, and takes two more steps for each interrupt. -/
theorem copiedUnderInterrupts (hrunning : start.halted = false)
    (hlines : start.devices.lines = {}) (hcode : start.AtRepeat .load direction)
    (hspares : start.SparesCode direction) (hinterruptible : start.Interruptible direction)
    (interrupted : Nat → Bool) :
    start.CopiedUnderInterrupts interrupted (wordRounds start.registers.bc) := by
  have hexecutes := (unnoticed_zero hrunning hlines).executes
  obtain ⟨last, hrounds⟩ := exists_wordRounds_eq_succ start.registers.bc
  have hcopying := copying_run hexecutes hcode hspares (by omega : last < _)
  have hcounter := (hcopying.step hcopying.code).counter
  have hbehind := (hcopying.step_last hcopying.code hrounds.symm).1
  rw [← run_succ, ← hrounds] at hcounter hbehind
  have hunnoticed {count : Nat} (hcount : count ≤ wordRounds start.registers.bc) :=
    unnoticed_runRaising hrunning hlines hcode hspares hinterruptible interrupted hcount
  have hfinal := (hunnoticed (Nat.le_refl _)).1.resembles.registers
  exact
    { length := length_raisesBefore interrupted _
      resembles := fun count hcount => (hunnoticed hcount).1.resembles
      underway := (hunnoticed (Nat.le_refl _)).2
      counter := by
        rw [hfinal]
        exact hcounter.trans (sub_wordRounds _)
      pc := by
        rw [hfinal]
        exact hbehind.trans (congrArg (· + 2) hcopying.pc) }

/-- A transfer downwards of three bytes, the last of them over its own code, with a request before
the first round and one before the last. -/
theorem copiedUnderInterrupts_down :
    let start : Machine :=
      { registers := { hl := 0x4002, de := 0x8003, bc := 3, sp := 0xC002, pc := 0x8000 }
        memory := (Memory.blank.load 0x8000 [0xED, 0xB8]).load 0x0066 [0xED, 0x45]
        window := { lowest := 0xC000, highest := 0x10000 } }
    let interrupted : Nat → Bool := fun round => round != 1
    start.halted = false ∧ start.devices.lines = {} ∧ start.AtRepeat .load .down ∧
      start.SparesCode .down ∧ start.Interruptible .down ∧
      start.CopiedUnderInterrupts interrupted 3 ∧ (raisesBefore interrupted 3).length = 7 := by
  intro start interrupted
  have hcode : start.AtRepeat .load .down := ⟨by decide +kernel, by decide +kernel⟩
  have hspares : start.SparesCode .down := by
    intro count hpositive hcount
    have hcount : count < 3 := hcount
    obtain rfl | rfl : count = 1 ∨ count = 2 := by omega
    · decide +kernel
    · decide +kernel
  have hinterruptible : start.Interruptible .down :=
    { room := by decide +kernel
      source := by decide +kernel
      lead := by decide +kernel
      opcode := by decide +kernel
      routineLead := by decide +kernel
      routineOpcode := by decide +kernel
      routine := ⟨by decide +kernel, by decide +kernel⟩
      target := by decide +kernel }
  have hcopied : start.CopiedUnderInterrupts interrupted 3 :=
    copiedUnderInterrupts rfl rfl hcode hspares hinterruptible interrupted
  exact ⟨rfl, rfl, hcode, hspares, hinterruptible, hcopied, hcopied.length⟩

end Machine

end Z80
