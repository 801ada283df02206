import Mathlib.Data.List.Nodup
import Mathlib.Data.List.Perm.Subperm
import Z80.Table

/-!
# Filling the opcode tables

Registering slots succeeds exactly if none is named twice and none was taken before
(`Table.register_eq_ok_iff`). Otherwise the error names the first slot that is taken when its turn
comes (`Table.register_eq_error_iff`). No opcode of the instruction set is registered twice, and the
tables that come of it are the instruction set (`Table.exists_build_eq_ok`).
-/

namespace Z80

namespace Table

variable {α : Type} {table next : Table α} {content : Slot → α} {slot : Slot} {slots : List Slot}
  {error : Error}

/-! ## One slot -/

theorem insert_of_taken {value : α} (htaken : (table.slots slot).isSome = true) :
    table.insert slot value = .error (.opcodeTaken slot.1 slot.2) :=
  if_pos htaken

theorem insert_of_free {value : α} (hfree : table.slots slot = none) :
    table.insert slot value = .ok (table.fill slot value) :=
  if_neg (Option.not_isSome_iff_eq_none.2 hfree)

/-! ## Many slots -/

/-- The tables are what becomes of others when some slots of those, each of them free, are
filled. -/
structure Fills (table : Table α) (content : Slot → α) (slots : List Slot) (next : Table α) :
    Prop where
  distinct : slots.Nodup
  free : ∀ slot ∈ slots, table.slots slot = none
  eq : next =
    { slots := fun slot => if slot ∈ slots then some (content slot) else table.slots slot }

theorem fills_nil : table.Fills content [] next ↔ next = table :=
  ⟨fun hfills => hfills.eq, fun heq => ⟨.nil, nofun, heq⟩⟩

/-- Filling slots is filling the first one and then the others. -/
theorem fills_cons_iff :
    table.Fills content (slot :: slots) next ↔
      table.slots slot = none ∧ (table.fill slot (content slot)).Fills content slots next := by
  have hlater (hnot : slot ∉ slots) (other : Slot) :
      (if other ∈ slot :: slots then some (content other) else table.slots other) =
        if other ∈ slots then some (content other)
        else (table.fill slot (content slot)).slots other := by
    by_cases hother : other = slot
    · subst hother
      simp [hnot]
    · simp [hother, slots_fill_other]
  constructor
  · rintro ⟨hdistinct, hfree, rfl⟩
    obtain ⟨hnot, hdistinct⟩ := List.nodup_cons.1 hdistinct
    refine ⟨hfree slot List.mem_cons_self, hdistinct, fun other hother => ?_, ?_⟩
    · rw [slots_fill_other table _ (ne_of_mem_of_not_mem hother hnot)]
      exact hfree other (List.mem_cons_of_mem _ hother)
    · exact congrArg Table.mk (funext (hlater hnot))
  · rintro ⟨hfirst, hdistinct, hfree, rfl⟩
    have hnot : slot ∉ slots := by
      intro hmem
      have hnone := hfree slot hmem
      rw [slots_fill_same] at hnone
      exact absurd hnone nofun
    refine ⟨List.nodup_cons.2 ⟨hnot, hdistinct⟩, fun other hother => ?_, ?_⟩
    · rcases List.mem_cons.1 hother with rfl | hother
      · exact hfirst
      · rw [← slots_fill_other table (content slot) (ne_of_mem_of_not_mem hother hnot)]
        exact hfree other hother
    · exact congrArg Table.mk (funext fun other => (hlater hnot other).symm)

theorem register_cons_of_taken (htaken : (table.slots slot).isSome = true) :
    table.register content (slot :: slots) = .error (.opcodeTaken slot.1 slot.2) := by
  rw [register, List.foldlM_cons, insert_of_taken htaken]
  rfl

theorem register_cons_of_free (hfree : table.slots slot = none) :
    table.register content (slot :: slots) =
      (table.fill slot (content slot)).register content slots := by
  rw [register, List.foldlM_cons, insert_of_free hfree]
  rfl

/-- Registering slots comes to filling them, and it fails if they cannot be filled. -/
theorem register_eq_ok_iff :
    table.register content slots = .ok next ↔ table.Fills content slots next := by
  induction slots generalizing table with
  | nil =>
      rw [fills_nil]
      exact ⟨fun heq => (Except.ok.inj heq).symm, fun heq => congrArg Except.ok heq.symm⟩
  | cons slot slots ih =>
      rw [fills_cons_iff]
      cases hslot : table.slots slot with
      | none => rw [register_cons_of_free hslot, ih, and_iff_right rfl]
      | some value =>
          rw [register_cons_of_taken (Option.isSome_iff_exists.2 ⟨value, hslot⟩)]
          exact iff_of_false nofun fun hfills => absurd hfills.1 nofun

/-- It fails at the first slot that is taken when its turn comes. -/
theorem register_eq_error_iff :
    table.register content slots = .error error ↔
      ∃ before slot after between, slots = before ++ slot :: after ∧
        table.Fills content before between ∧ (between.slots slot).isSome = true ∧
        error = .opcodeTaken slot.1 slot.2 := by
  constructor
  · intro hfails
    induction slots generalizing table with
    | nil => exact absurd hfails nofun
    | cons slot slots ih =>
        cases hslot : table.slots slot with
        | none =>
            rw [register_cons_of_free hslot] at hfails
            obtain ⟨before, taken, after, between, rfl, hfills, htaken, rfl⟩ := ih hfails
            exact ⟨slot :: before, taken, after, between, rfl,
              fills_cons_iff.2 ⟨hslot, hfills⟩, htaken, rfl⟩
        | some value =>
            have htaken : (table.slots slot).isSome = true :=
              Option.isSome_iff_exists.2 ⟨value, hslot⟩
            rw [register_cons_of_taken htaken] at hfails
            exact ⟨[], slot, slots, table, rfl, fills_nil.2 rfl, htaken,
              (Except.error.inj hfails).symm⟩
  · rintro ⟨before, slot, after, between, rfl, hfills, htaken, rfl⟩
    rw [register, List.foldlM_append]
    have hbefore : before.foldlM _ table = _ := register_eq_ok_iff.2 hfills
    rw [hbefore]
    exact register_cons_of_taken htaken

example : ({} : Table Unit).register (fun _ => ())
    [(.bits, 0x01), (.extended, 0x01), (.bits, 0x01)] = .error (.opcodeTaken .bits 0x01) := by rfl

end Table

/-! ## The opcodes of a page -/

/-- The number that has a one at every opcode of a list. Two lists have the same opcodes if their
numbers are equal, which is quick to decide. -/
def opcodeBits (opcodes : List Byte) : Nat :=
  opcodes.foldr (fun opcode bits => bits ||| 1 <<< opcode.toNat) 0

theorem testBit_opcodeBits (opcodes : List Byte) (opcode : Byte) :
    (opcodeBits opcodes).testBit opcode.toNat = true ↔ opcode ∈ opcodes := by
  induction opcodes with
  | nil => simp [opcodeBits]
  | cons first opcodes ih =>
      have hone : (1 <<< first.toNat).testBit opcode.toNat = true ↔ opcode = first := by
        rw [Nat.one_shiftLeft, Nat.testBit_two_pow, decide_eq_true_iff, BitVec.toNat_inj]
        exact eq_comm
      rw [opcodeBits, List.foldr_cons, Nat.testBit_or, Bool.or_eq_true, hone, List.mem_cons]
      exact (or_congr_left ih).trans or_comm

/-- Whether there is an entry does not depend on a displacement before the opcode. -/
theorem Code.isSome_entry? (code : Code) :
    code.entry?.isSome = (Code.entry? { page := code.page, opcode := code.opcode }).isSome := by
  obtain ⟨page, opcode, displacement⟩ := code
  cases page <;> rfl

namespace Page

theorem mem_coverage_iff {page : Page} {opcode : Byte} :
    opcode ∈ page.coverage ↔ (Code.entry? { page, opcode }).isSome = true := by
  have hbyte : opcode ∈ (List.range 256).map (BitVec.ofNat 8) :=
    List.mem_map.2 ⟨opcode.toNat, List.mem_range.2 opcode.isLt, BitVec.ofNat_toNat ..⟩
  rw [coverage, List.mem_filter, and_iff_right hbyte]

theorem nodup_coverage (page : Page) : page.coverage.Nodup := by
  refine List.Nodup.filter _ (List.Nodup.map_on ?_ List.nodup_range)
  intro left hleft right hright heq
  have hvalue := congrArg BitVec.toNat heq
  rw [BitVec.toNat_ofNat, BitVec.toNat_ofNat, Nat.mod_eq_of_lt (List.mem_range.1 hleft),
    Nat.mod_eq_of_lt (List.mem_range.1 hright)] at hvalue
  exact hvalue

/-- The opcodes that are registered on a page are those that have an entry, each of them once. -/
theorem registered_perm_coverage (page : Page) : page.registered.Perm page.coverage := by
  have hpages : ∀ page ∈ all, opcodeBits page.registered = opcodeBits page.coverage ∧
      page.registered.length = page.coverage.length := by
    decide +kernel
  obtain ⟨hbits, hlength⟩ := hpages page page.mem_all
  have hsubset : page.coverage ⊆ page.registered := by
    intro opcode hopcode
    rw [← testBit_opcodeBits, hbits, testBit_opcodeBits]
    exact hopcode
  exact ((List.subperm_of_subset page.nodup_coverage hsubset).perm_of_length_le
    (Nat.le_of_eq hlength)).symm

end Page

/-! ## The instruction set -/

namespace Table

theorem mem_registrations_iff {page : Page} {opcode : Byte} :
    (page, opcode) ∈ registrations ↔ opcode ∈ page.coverage := by
  have hpage : page ∈ Page.fillingOrder := by
    rcases page with _ | _ | _ | ⟨_ | _⟩ | ⟨_ | _⟩ <;> decide
  rw [← page.registered_perm_coverage.mem_iff, registrations]
  simp [hpage]

theorem nodup_registrations : registrations.Nodup := by
  refine List.nodup_flatMap.2 ⟨fun page _ => ?_, ?_⟩
  · have hregistered := page.registered_perm_coverage.nodup_iff.2 page.nodup_coverage
    exact hregistered.map fun _ _ heq => congrArg Prod.snd heq
  · refine List.Pairwise.imp ?_ (show Page.fillingOrder.Nodup by decide)
    intro left right hne slot hleft hright
    obtain ⟨_, _, rfl⟩ := List.mem_map.1 hleft
    obtain ⟨_, _, heq⟩ := List.mem_map.1 hright
    exact hne (congrArg Prod.fst heq).symm

/-- Registering the instruction set does not fail, and every code selects its entry. -/
theorem exists_build_eq_ok :
    ∃ table, build = .ok table ∧ (∀ page, table.coverage page = page.coverage) ∧
      ∀ code : Code,
        (table.lookup code.page code.opcode).bind (· code.displacement) = code.entry? := by
  refine ⟨_, register_eq_ok_iff.2 ⟨nodup_registrations, fun _ _ => rfl, rfl⟩, ?_, ?_⟩
  · intro page
    refine List.filter_congr fun opcode _ => ?_
    rw [lookup, apply_ite Option.isSome, Bool.eq_iff_iff, ← Page.mem_coverage_iff,
      ← mem_registrations_iff]
    simp
  · intro code
    rw [lookup]
    dsimp only
    split
    case isTrue => rfl
    case isFalse hnot =>
      rw [mem_registrations_iff, Page.mem_coverage_iff, ← code.isSome_entry?] at hnot
      exact (Option.not_isSome_iff_eq_none.1 hnot).symm

end Table

end Z80
