import Mathlib.Data.Nat.Digits.Lemmas
import Mathlib.Tactic.LinearCombination
import Z80.Alu
import Z80.Proofs.Arithmetic.Outcome

/-!
# Numbers of several bytes

Numbers that do not fit a register are kept as byte strings with the lowest byte first, and worked
through byte by byte in either direction, the registers carrying from one byte to the next. Where
every byte accounts for what is carried in and out of it, so does the whole string: `ascend_exact`
says so from the lowest byte up, and `descend_exact` from the highest byte down.
-/

namespace Z80

/-- A number of several bytes, the lowest byte first. -/
abbrev Numeral := List Byte

namespace Numeral

/-! ## Readings -/

/-- The number that the bytes spell. -/
def value (numeral : Numeral) : Nat :=
  Nat.ofDigits 256 (numeral.map BitVec.toNat)

/-- The number that they spell in two's complement. -/
def signed (numeral : Numeral) : Int :=
  if 2 * numeral.value < 256 ^ numeral.length then numeral.value
  else numeral.value - (256 ^ numeral.length : Nat)

/-- The highest bit of the number, counting all of its bytes. -/
def topBit (numeral : Numeral) : Bool :=
  numeral.value.testBit (8 * numeral.length - 1)

theorem value_concat (rest : Numeral) (top : Byte) :
    value (rest ++ [top]) = value rest + 256 ^ rest.length * top.toNat := by
  unfold value
  rw [List.map_append, Nat.ofDigits_append, List.length_map, List.map_singleton,
    Nat.ofDigits_singleton]

theorem digit_lt (numeral : Numeral) : ∀ digit ∈ numeral.map BitVec.toNat, digit < 256 := by
  intro digit hdigit
  obtain ⟨byte, -, rfl⟩ := List.mem_map.1 hdigit
  exact byte.isLt

theorem value_lt (numeral : Numeral) : numeral.value < 256 ^ numeral.length := by
  have hlt := Nat.ofDigits_lt_base_pow_length (by decide) numeral.digit_lt
  rwa [List.length_map] at hlt

theorem ne_nil_of_length_eq {first second : Numeral} (hlength : first.length = second.length)
    (hnonempty : second ≠ []) : first ≠ [] := by
  rintro rfl
  exact hnonempty (List.length_eq_zero_iff.1 hlength.symm)

/-- Of the numerals of one length, each number has one. -/
theorem eq_of_value_eq {first second : Numeral} (hlength : first.length = second.length)
    (hvalue : first.value = second.value) : first = second := by
  have hlengths : (first.map BitVec.toNat).length = (second.map BitVec.toNat).length := by
    rwa [List.length_map, List.length_map]
  have hdigits := Nat.ofDigits_inj_of_len_eq (by decide) hlengths first.digit_lt second.digit_lt
    hvalue
  exact List.map_injective_iff.2 (fun _ _ => BitVec.eq_of_toNat_eq) hdigits

/-- The top byte is in the upper half of the bytes if the number is in that of the numbers. -/
theorem two_mul_value_concat_lt_iff (rest : Numeral) (top : Byte) :
    2 * value (rest ++ [top]) < 256 ^ (rest ++ [top]).length ↔ top.toNat < 128 := by
  have hrest := rest.value_lt
  rw [value_concat, List.length_append, List.length_singleton, pow_succ]
  constructor
  · intro hlt
    by_contra hge
    have hpart := Nat.mul_le_mul_left (256 ^ rest.length) (Nat.not_lt.1 hge)
    omega
  · intro hlt
    have hpart := Nat.mul_le_mul_left (256 ^ rest.length) (Nat.le_of_lt_succ hlt)
    omega

theorem signed_cases (numeral : Numeral) :
    (2 * numeral.value < 256 ^ numeral.length ∧ numeral.signed = numeral.value) ∨
      (256 ^ numeral.length ≤ 2 * numeral.value ∧
        numeral.signed = numeral.value - (256 ^ numeral.length : Nat)) := by
  unfold signed
  split
  case isTrue hlow => exact .inl ⟨hlow, rfl⟩
  case isFalse hhigh => exact .inr ⟨Nat.not_lt.1 hhigh, rfl⟩

/-- Only the top byte is read in two's complement. -/
theorem signed_concat (rest : Numeral) (top : Byte) :
    signed (rest ++ [top]) = value rest + 256 ^ rest.length * top.toInt := by
  unfold signed
  rw [BitVec.toInt_eq_toNat_cond]
  by_cases hsmall : top.toNat < 128
  · rw [if_pos ((two_mul_value_concat_lt_iff rest top).2 hsmall), if_pos (by omega), value_concat]
    push_cast
    rfl
  · rw [if_neg (mt (two_mul_value_concat_lt_iff rest top).1 hsmall), if_neg (by omega),
      value_concat, List.length_append, List.length_singleton, pow_succ]
    push_cast
    ring

theorem topBit_concat (rest : Numeral) (top : Byte) : topBit (rest ++ [top]) = top.msb := by
  have hrest := rest.value_lt
  have hbase : 256 ^ rest.length = 2 ^ (8 * rest.length) := (pow_mul 2 8 rest.length).symm
  have hplace : 8 * (rest ++ [top]).length - 1 = 8 * rest.length + 7 := by
    rw [List.length_append, List.length_singleton]
    omega
  rw [topBit, hplace, value_concat, Nat.add_comm]
  rw [hbase] at hrest ⊢
  rw [Nat.testBit_two_pow_mul_add _ hrest, if_neg (by omega), Nat.add_sub_cancel_left]
  rfl

/-- The top bit is the sign of the two's-complement reading. -/
theorem topBit_eq_decide {numeral : Numeral} (hnonempty : numeral ≠ []) :
    numeral.topBit = decide (256 ^ numeral.length ≤ 2 * numeral.value) := by
  obtain ⟨rest, top, rfl⟩ := (List.eq_nil_or_concat' numeral).resolve_left hnonempty
  have hhalf := two_mul_value_concat_lt_iff rest top
  rw [topBit_concat, BitVec.msb_eq_decide]
  exact decide_eq_decide.2 (by omega)

end Numeral

/-! ## Digits of any kind -/

section

variable {α β : Type}

/-- The number that a list spells, the lowest digit first. A digit can be any integer, so that sums
and differences of digits are digits again. -/
def spelled (base : Int) (digit : α → Int) : List α → Int
  | [] => 0
  | item :: rest => digit item + base * spelled base digit rest

variable {base : Int}

theorem cast_ofDigits (base : Nat) (digit : α → Nat) (items : List α) :
    ((Nat.ofDigits base (items.map digit) : Nat) : Int) = spelled base (digit ·) items := by
  induction items with
  | nil => rfl
  | cons item rest ih =>
      rw [List.map_cons, Nat.ofDigits_cons, spelled, ← ih]
      push_cast
      rfl

theorem Numeral.cast_value (numeral : Numeral) :
    (numeral.value : Int) = spelled 256 (fun byte => byte.toNat) numeral :=
  cast_ofDigits 256 BitVec.toNat numeral

theorem spelled_mul (factor : Int) (digit : α → Int) (items : List α) :
    spelled base (fun item => factor * digit item) items = factor * spelled base digit items := by
  induction items with
  | nil => exact (mul_zero factor).symm
  | cons item rest ih =>
      rw [spelled, spelled, ih]
      ring

theorem spelled_zip_add (left : α → Int) (right : β → Int) {items : List α} {others : List β}
    (hlength : items.length = others.length) :
    spelled base (fun pair => left pair.1 + right pair.2) (items.zip others) =
      spelled base left items + spelled base right others := by
  induction items generalizing others with
  | nil =>
      rw [List.length_eq_zero_iff.1 hlength.symm]
      rfl
  | cons item rest ih =>
      obtain _ | ⟨other, others⟩ := others
      · simp at hlength
      · rw [List.zip_cons_cons, spelled, spelled, spelled, ih (by simpa using hlength)]
        ring

end

/-! ## Working through a list -/

namespace Registers

variable {α : Type} {step : Registers → α → Byte × Registers} {items : List α}

/-- Makes a byte of each item, from the head of the list to its end. -/
def ascend (step : Registers → α → Byte × Registers) (registers : Registers) :
    List α → Numeral × Registers
  | [] => ([], registers)
  | item :: rest =>
      let (byte, next) := step registers item
      let (bytes, last) := ascend step next rest
      (byte :: bytes, last)

/-- Makes a byte of each item, from the end of the list to its head. -/
def descend (step : Registers → α → Byte × Registers) (registers : Registers) :
    List α → Numeral × Registers
  | [] => ([], registers)
  | item :: rest =>
      let (bytes, next) := descend step registers rest
      let (byte, last) := step next item
      (byte :: bytes, last)

theorem ascend_cons (registers : Registers) (item : α) (rest : List α) :
    registers.ascend step (item :: rest) =
      ((step registers item).1 :: ((step registers item).2.ascend step rest).1,
        ((step registers item).2.ascend step rest).2) :=
  rfl

theorem descend_cons (registers : Registers) (item : α) (rest : List α) :
    registers.descend step (item :: rest) =
      ((step (registers.descend step rest).2 item).1 :: (registers.descend step rest).1,
        (step (registers.descend step rest).2 item).2) :=
  rfl

theorem length_ascend (registers : Registers) :
    (registers.ascend step items).1.length = items.length := by
  induction items generalizing registers with
  | nil => rfl
  | cons item rest ih => exact congrArg (· + 1) (ih _)

theorem length_descend (registers : Registers) :
    (registers.descend step items).1.length = items.length := by
  induction items with
  | nil => rfl
  | cons item rest ih => exact congrArg (· + 1) ih

/-- The last item is worked on from what the others have left. -/
theorem ascend_concat (registers : Registers) (item : α) :
    registers.ascend step (items ++ [item]) =
      ((registers.ascend step items).1 ++ [(step (registers.ascend step items).2 item).1],
        (step (registers.ascend step items).2 item).2) := by
  induction items generalizing registers with
  | nil => rfl
  | cons first rest ih =>
      rw [List.cons_append, ascend_cons, ih]
      rfl

theorem descend_concat (registers : Registers) (item : α) :
    registers.descend step (items ++ [item]) =
      (((step registers item).2.descend step items).1 ++ [(step registers item).1],
        ((step registers item).2.descend step items).2) := by
  induction items with
  | nil => rfl
  | cons first rest ih =>
      rw [List.cons_append, descend_cons, ih]
      rfl

theorem forall_mem_ascend {property : Byte → Prop}
    (hstep : ∀ registers, ∀ item ∈ items, property (step registers item).1)
    (registers : Registers) : ∀ byte ∈ (registers.ascend step items).1, property byte := by
  induction items generalizing registers with
  | nil => exact fun _ hbyte => absurd hbyte List.not_mem_nil
  | cons item rest ih =>
      intro byte hbyte
      obtain rfl | hrest := List.mem_cons.1 hbyte
      · exact hstep registers item List.mem_cons_self
      · exact ih (fun registers other hother =>
          hstep registers other (List.mem_cons_of_mem _ hother)) _ byte hrest

/-- What every step leaves as it is, the whole way does. -/
theorem kept_ascend {β : Type} (part : Registers → β)
    (hstep : ∀ registers item, part (step registers item).2 = part registers)
    (registers : Registers) : part (registers.ascend step items).2 = part registers := by
  induction items generalizing registers with
  | nil => rfl
  | cons item rest ih => exact (ih _).trans (hstep registers item)

theorem kept_descend {β : Type} (part : Registers → β)
    (hstep : ∀ registers item, part (step registers item).2 = part registers)
    (registers : Registers) : part (registers.descend step items).2 = part registers := by
  induction items with
  | nil => rfl
  | cons item rest ih => exact (hstep _ item).trans ih

/-- A change of the registers that no step notices, no way through the list does. -/
theorem ascend_change (change : Registers → Registers)
    (hstep : ∀ registers item, step (change registers) item =
      ((step registers item).1, change (step registers item).2)) (registers : Registers) :
    (change registers).ascend step items =
      ((registers.ascend step items).1, change (registers.ascend step items).2) := by
  induction items generalizing registers with
  | nil => rfl
  | cons item rest ih =>
      rw [ascend_cons, ascend_cons, hstep, ih]

theorem descend_change (change : Registers → Registers)
    (hstep : ∀ registers item, step (change registers) item =
      ((step registers item).1, change (step registers item).2)) (registers : Registers) :
    (change registers).descend step items =
      ((registers.descend step items).1, change (registers.descend step items).2) := by
  induction items with
  | nil => rfl
  | cons item rest ih =>
      rw [descend_cons, descend_cons, ih, hstep]

variable {base : Int} (made : Byte → Int) (given : α → Int) (held : Registers → Int)

/-- Where each byte made and what is then held account for the item and what was held, all of the
bytes do. What is held counts for as much as the next digit. -/
theorem ascend_exact
    (hstep : ∀ registers, ∀ item ∈ items,
      made (step registers item).1 + base * held (step registers item).2 =
        given item + held registers)
    (registers : Registers) :
    spelled base made (registers.ascend step items).1 +
        base ^ items.length * held (registers.ascend step items).2 =
      spelled base given items + held registers := by
  induction items generalizing registers with
  | nil => simp [ascend, spelled]
  | cons item rest ih =>
      have hfirst := hstep registers item List.mem_cons_self
      have hrest := ih (fun registers other hother =>
        hstep registers other (List.mem_cons_of_mem _ hother)) (step registers item).2
      -- what the first item leaves held is what the others take up, and drops out
      rw [ascend_cons, spelled, spelled, List.length_cons, pow_succ]
      linear_combination hfirst + base * hrest

/-- On the way down what is held counts for as much as the digit before, and is brought down. -/
theorem descend_exact
    (hstep : ∀ registers, ∀ item ∈ items,
      made (step registers item).1 + held (step registers item).2 =
        given item + base * held registers)
    (registers : Registers) :
    spelled base made (registers.descend step items).1 +
        held (registers.descend step items).2 =
      spelled base given items + base ^ items.length * held registers := by
  induction items with
  | nil => simp [descend, spelled]
  | cons item rest ih =>
      have hrest := ih fun registers other hother =>
        hstep registers other (List.mem_cons_of_mem _ hother)
      have hlast := hstep (registers.descend step rest).2 item List.mem_cons_self
      rw [descend_cons, spelled, spelled, List.length_cons, pow_succ]
      linear_combination hlast + base * hrest

/-! ## Working through two numerals -/

section

variable {combined : Registers → Byte × Byte → Byte × Registers} {left right : Numeral}
  (registers : Registers) (hlength : left.length = right.length)

include hlength

theorem length_ascend_zip :
    (registers.ascend combined (left.zip right)).1.length = left.length := by
  rw [length_ascend, List.length_zip, hlength, Nat.min_self]

/-- Where each step counts the right digit and the carry so many times, the whole run counts the
right number and the carry so many times. -/
theorem ascend_zip_exact {radix : Nat} {digit : Byte → Nat} {factor : Int}
    (hstep : ∀ registers, ∀ pair ∈ left.zip right,
      (digit (combined registers pair).1 : Int) +
          radix * (factor * (combined registers pair).2.flags.carry.toNat) =
        digit pair.1 + factor * digit pair.2 + factor * registers.flags.carry.toNat) :
    ((Nat.ofDigits radix
          ((registers.ascend combined (left.zip right)).1.map digit) : Nat) : Int) +
        radix ^ left.length *
          (factor * (registers.ascend combined (left.zip right)).2.flags.carry.toNat) =
      (Nat.ofDigits radix (left.map digit) : Nat) +
        factor * (Nat.ofDigits radix (right.map digit) : Nat) +
        factor * registers.flags.carry.toNat := by
  have hexact := ascend_exact (fun byte : Byte => digit byte)
    (fun pair : Byte × Byte => digit pair.1 + factor * digit pair.2)
    (fun registers : Registers => factor * registers.flags.carry.toNat) hstep registers
  rw [spelled_zip_add (fun byte => digit byte) (fun byte => factor * digit byte) hlength,
    spelled_mul, List.length_zip, ← hlength, Nat.min_self] at hexact
  rw [cast_ofDigits, cast_ofDigits, cast_ofDigits]
  exact hexact

end

end Registers

end Z80
