import Caprese.Proofs.Regions
import Caprese.Store.Boot

/-!
# `Caprese.Proofs.Blocks`: the blocks of a region

The first loop of `insert_memory_region_caps` raises the power of two that the start of the region
is a multiple of, with the carries of the blocks that it creates. The second loop goes down
through the sizes, and the start stays a multiple of all of them. So the blocks are aligned to
their sizes, and with enough free slots the root task gets exactly what the region has outside of the
reserved ones (`insert_memory_region_caps_exact`).
-/

set_option autoImplicit false

namespace Caprese.Setup

open Lib Prog

variable {env : Env} {k k' k₁ k₂ : Kernel} {rootTask : TaskPtr} {device : Bool} {region : Span}
  {block : Block} {sizeBit a : Nat}

/-! ### Alignment -/

theorem dvd_succ_of_testBit_false (h : 2 ^ sizeBit ∣ a) (hbit : ¬ a.testBit sizeBit = true) :
    2 ^ (sizeBit + 1) ∣ a := by
  obtain ⟨q, rfl⟩ := h
  rw [Nat.testBit_eq_decide_div_mod_eq, Nat.mul_div_cancel_left q (Nat.two_pow_pos _),
    decide_eq_true_eq] at hbit
  obtain ⟨r, rfl⟩ : 2 ∣ q := Nat.dvd_of_mod_eq_zero (by omega)
  exact ⟨r, by rw [Nat.pow_succ, Nat.mul_assoc]⟩

/-- The carry of a block. -/
theorem dvd_succ_of_testBit_true (h : 2 ^ sizeBit ∣ a) (hbit : a.testBit sizeBit = true) :
    2 ^ (sizeBit + 1) ∣ a + 2 ^ sizeBit := by
  obtain ⟨q, rfl⟩ := h
  rw [Nat.testBit_eq_decide_div_mod_eq, Nat.mul_div_cancel_left q (Nat.two_pow_pos _),
    decide_eq_true_eq] at hbit
  obtain ⟨r, hr⟩ : 2 ∣ q + 1 := Nat.dvd_of_mod_eq_zero (by omega)
  exact ⟨r, by rw [Nat.pow_succ, Nat.mul_assoc, ← hr, Nat.mul_add, Nat.mul_one]⟩

/-- A block starts at a multiple of its size. -/
def Block.Aligned (block : Block) : Prop := 2 ^ block.sizeBit ∣ block.start

theorem aligned_fallingBlocks (h : 2 ^ sizeBit ∣ region.start) :
    ∀ block ∈ fallingBlocks sizeBit region, block.Aligned := by
  fun_induction fallingBlocks sizeBit region with
  | case1 sizeBit region hlt hroom ih =>
    intro block hb
    rcases List.mem_cons.mp hb with rfl | hb
    · exact h
    · exact ih (Nat.dvd_add h (Nat.dvd_refl _)) block hb
  | case2 sizeBit region hlt hroom ih =>
    exact ih (Nat.dvd_trans (Nat.pow_dvd_pow 2 (Nat.sub_le sizeBit 1)) h)
  | case3 sizeBit region hge => exact fun _ hb => absurd hb List.not_mem_nil

theorem aligned_risingBlocks (bits : Nat) (h : 2 ^ sizeBit ∣ region.start) :
    (∀ block ∈ (risingBlocks bits sizeBit region).1, block.Aligned) ∧
      2 ^ (risingBlocks bits sizeBit region).2.1 ∣ (risingBlocks bits sizeBit region).2.2.start := by
  induction bits generalizing sizeBit region with
  | zero => exact ⟨fun _ hb => absurd hb List.not_mem_nil, h⟩
  | succ bits ih =>
    unfold risingBlocks
    split
    · split
      · rename_i hbit
        split
        · obtain ⟨hblocks, hrest⟩ := @ih ⟨region.start + 2 ^ sizeBit, region.stop⟩ (sizeBit + 1)
            (dvd_succ_of_testBit_true h hbit)
          refine ⟨fun block hb => ?_, hrest⟩
          rcases List.mem_cons.mp hb with rfl | hb
          · exact h
          · exact hblocks block hb
        · exact ⟨fun _ hb => absurd hb List.not_mem_nil, h⟩
      · rename_i hbit
        exact ih (dvd_succ_of_testBit_false h hbit)
    · exact ⟨fun _ hb => absurd hb List.not_mem_nil, h⟩

theorem aligned_regionBlocks : ∀ block ∈ regionBlocks region, block.Aligned := by
  obtain ⟨hrising, hrest⟩ := @aligned_risingBlocks region 0 64 (Nat.one_dvd _)
  intro block hb
  rcases List.mem_append.mp hb with hb | hb
  · exact hrising block hb
  · exact aligned_fallingBlocks hrest block hb

theorem aligned_cutBlocks (reserved : List Span) (region : Span) :
    ∀ block ∈ cutBlocks reserved region, block.Aligned := by
  induction reserved generalizing region with
  | nil =>
    unfold cutBlocks
    split
    · exact fun _ hb => absurd hb List.not_mem_nil
    · exact aligned_regionBlocks
  | cons reserved rest ih =>
    unfold cutBlocks
    split
    · exact fun _ hb => absurd hb List.not_mem_nil
    · intro block hb
      obtain ⟨part, -, hpart⟩ := List.mem_flatMap.mp hb
      split at hpart
      · exact ih part block hpart
      · exact absurd hpart List.not_mem_nil

/-- The first loop is over within 64 turns. -/
theorem risingBlocks_turns {bits : Nat} (n : Nat) (h : 2 ^ sizeBit ∣ region.start)
    (hpos : 0 < region.start) (hstop : region.stop ≤ 2 ^ 64) (hbits : 64 ≤ bits + sizeBit) :
    risingBlocks (bits + n) sizeBit region = risingBlocks bits sizeBit region := by
  induction bits generalizing sizeBit region with
  | zero =>
    have hover : ¬ region.start < region.stop := by
      have hle : 2 ^ 64 ≤ 2 ^ sizeBit := Nat.pow_le_pow_right (by decide) (by omega)
      have hstart := Nat.le_of_dvd hpos h
      omega
    cases n with
    | zero => rfl
    | succ n =>
      show risingBlocks (0 + n + 1) sizeBit region = ([], sizeBit, region)
      unfold risingBlocks
      rw [if_neg hover]
  | succ bits ih =>
    rw [Nat.add_right_comm]
    unfold risingBlocks
    split
    · split
      · rename_i hbit
        split
        · have hstart : 0 < region.start + 2 ^ sizeBit :=
            Nat.lt_of_lt_of_le hpos (Nat.le_add_right _ _)
          have hrest := @ih ⟨region.start + 2 ^ sizeBit, region.stop⟩ (sizeBit + 1)
            (dvd_succ_of_testBit_true h hbit) hstart hstop (by omega)
          rw [hrest]
        · rfl
      · rename_i hbit
        exact ih (dvd_succ_of_testBit_false h hbit) hpos hstop (by omega)
    · rfl

/-! ### Slots -/

/-- The root task was provided with the capabilities, in slots that were free. -/
structure Provided (rootTask : TaskPtr) (k k' : Kernel) (caps : List Capability) : Prop where
  inv : StoreInv k' ∅
  alive : ¬ isDead (k'.tasks rootTask)
  owner : k'.owner = k.owner
  count : (k'.tasks rootTask).freeSlotsCount + caps.length = (k.tasks rootTask).freeSlotsCount
  slots : ∃ slots : List SlotPtr, slots.Nodup ∧
    (∀ s ∈ slots, k.owner s = some rootTask ∧ k.cap s = .null) ∧ slots.map k'.cap = caps ∧
    ∀ s, s ∉ slots → k'.cap s = k.cap s

namespace Provided

theorem refl (h : StoreInv k ∅) (halive : ¬ isDead (k.tasks rootTask)) :
    Provided rootTask k k [] :=
  ⟨h, halive, rfl, rfl, [], List.nodup_nil, fun _ hs => absurd hs List.not_mem_nil, rfl, fun _ _ => rfl⟩

theorem append {caps caps' : List Capability} (h : Provided rootTask k k₁ caps)
    (h' : Provided rootTask k₁ k₂ caps') (hcaps : ∀ c ∈ caps, c ≠ .null) :
    Provided rootTask k k₂ (caps ++ caps') := by
  obtain ⟨slots, hnodup, hnull, hmap, hother⟩ := h.slots
  obtain ⟨slots', hnodup', hnull', hmap', hother'⟩ := h'.slots
  have hfilled : ∀ s ∈ slots, k₁.cap s ≠ .null := fun s hs =>
    hcaps _ (hmap ▸ List.mem_map_of_mem hs)
  have hdisjoint : ∀ s ∈ slots, s ∉ slots' := fun s hs hs' => hfilled s hs (hnull' s hs').2
  refine ⟨h'.inv, h'.alive, h'.owner.trans h.owner, ?_, slots ++ slots', ?_, fun s hs => ?_, ?_,
    fun s hs => ?_⟩
  · have hcount := h.count
    have hcount' := h'.count
    rw [List.length_append]
    omega
  · exact List.nodup_append.mpr ⟨hnodup, hnodup', fun s hs s' hs' heq => hdisjoint s hs (heq ▸ hs')⟩
  · rcases List.mem_append.mp hs with hs | hs
    · exact hnull s hs
    · obtain ⟨howner, hcap⟩ := hnull' s hs
      rw [h.owner] at howner
      refine ⟨howner, ?_⟩
      rw [← hother s fun hin => hdisjoint s hin hs]
      exact hcap
  · rw [List.map_append, hmap', ← hmap]
    exact congrArg (· ++ caps') (List.map_congr_left fun s hs => hother' s (hdisjoint s hs))
  · rw [List.mem_append, not_or] at hs
    rw [hother' s hs.2, hother s hs.1]

end Provided

/-- A capability is inserted while there is a free slot. -/
theorem wp_insertRootCap_provided {c : Capability} {E : Stop → Kernel → Prop} (h : StoreInv k ∅)
    (halive : ¬ isDead (k.tasks rootTask)) (hfree : 0 < (k.tasks rootTask).freeSlotsCount)
    (hc : c ≠ .null) : wp (insertRootCap rootTask c) env (fun _ k' => Provided rootTask k k' [c]) E k := by
  have hused : (k.tasks rootTask).state ≠ .unused := fun heq => halive (Or.inl heq)
  obtain ⟨f, hf⟩ := h.free rootTask hused
  obtain ⟨s, hs⟩ : ∃ s, (k.tasks rootTask).freeSlots = some s := by
    rw [hf.head]
    cases f with
    | nil =>
      rw [hf.count] at hfree
      exact absurd hfree (Nat.lt_irrefl 0)
    | cons s f => exact ⟨s, rfl⟩
  have hpopped := h.popped_spec hused hs
  unfold insertRootCap insertCap
  have halive' : ¬ ((k.tasks rootTask).state = .unused ∨ (k.tasks rootTask).state = .killed) := halive
  rw [wp_bind, wp_bind, wp_get, wp_ite, if_neg halive', wp_bind, wp_popFreeSlots h hused, hs]
  dsimp only
  rw [wp_bind, wp_modify, wp_pure, wp_ite, if_neg (by simp), wp_pure]
  refine ⟨hpopped.fill hc, ?_, rfl, ?_, [s], List.nodup_singleton s, fun s' hs' => ?_, ?_, fun s' hs' => ?_⟩
  · have hstate := (hpopped.tasks rootTask).1
    show ¬ isDead ((k.popped rootTask s).tasks rootTask)
    unfold isDead
    rw [hstate]
    exact halive
  · have htask : (k.popped rootTask s).tasks rootTask = { k.tasks rootTask with
        freeSlots := (k.links.next s).or (k.links.prev s)
        freeSlotsCount := (k.tasks rootTask).freeSlotsCount - 1 } := upd_same _ _ _
    show ((k.popped rootTask s).tasks rootTask).freeSlotsCount + 1 = (k.tasks rootTask).freeSlotsCount
    rw [htask]
    exact Nat.sub_add_cancel hfree
  · rw [List.mem_singleton.mp hs']
    obtain ⟨howner, hnull, -⟩ := h.of_freeSlots hused hs
    exact ⟨howner, hnull⟩
  · rw [List.map_singleton, Kernel.setCap_cap, upd_same]
  · rw [Kernel.setCap_cap, upd_ne _ _ (mt List.mem_singleton.mpr hs')]
    rfl

/-! ### Runs -/

/-- With enough free slots the run provides the root task with the capabilities of the blocks. -/
def Provides (env : Env) (rootTask : TaskPtr) (device : Bool) (body : K (List Capability))
    (blocks : List Block) : Prop :=
  ∀ k, StoreInv k ∅ → ¬ isDead (k.tasks rootTask) →
    blocks.length ≤ (k.tasks rootTask).freeSlotsCount →
    wp body env (fun caps k' => caps = blocks.map (memoryCap device) ∧ Provided rootTask k k' caps)
      (fun _ _ => False) k

namespace Provides

variable {body body' : K (List Capability)} {blocks blocks' : List Block}

theorem nothing : Provides env rootTask device (return []) [] :=
  fun _ h halive _ => ⟨rfl, .refl h halive⟩

theorem append (h : Provides env rootTask device body blocks)
    (h' : Provides env rootTask device body' blocks') :
    Provides env rootTask device (do return (← body) ++ (← body')) (blocks ++ blocks') := by
  intro k hinv halive hroom
  rw [List.length_append] at hroom
  rw [wp_bind]
  refine wp_mono (h k hinv halive (by omega)) ?_ fun _ _ hE => hE
  rintro caps k₁ ⟨rfl, hprovided⟩
  have hcount := hprovided.count
  rw [List.length_map] at hcount
  rw [wp_bind]
  refine wp_mono (h' k₁ hprovided.inv hprovided.alive (by omega)) ?_ fun _ _ hE => hE
  rintro caps k₂ ⟨rfl, hprovided'⟩
  refine ⟨List.map_append.symm, hprovided.append hprovided' fun c hc => ?_⟩
  obtain ⟨block, -, rfl⟩ := List.mem_map.mp hc
  exact fun h => nomatch h

theorem collect {α : Type} {body : α → K (List Capability)} {cut : α → List Block} {as : List α}
    (h : ∀ a ∈ as, Provides env rootTask device (body a) (cut a)) :
    Provides env rootTask device (Setup.collect body as) (as.flatMap cut) := by
  induction as with
  | nil => exact nothing
  | cons a as ih =>
    exact (h a List.mem_cons_self).append (ih fun a' ha' => h a' (List.mem_cons_of_mem _ ha'))

/-- One block, which does not lose bits in the capability. -/
theorem createMemoryCap (hstart : block.start < CONFIG_MAX_PHYSICAL_ADDRESS)
    (hsize : 2 ^ block.sizeBit < CONFIG_MAX_PHYSICAL_ADDRESS) :
    Provides env rootTask device (do return [← Setup.createMemoryCap rootTask device block])
      [block] := by
  intro k hinv halive hroom
  unfold Setup.createMemoryCap makeMemoryCap
  rw [wp_bind, wp_bind, wp_bind]
  refine wp_kassert_holds hstart ?_
  rw [wp_bind]
  refine wp_kassert_holds hsize ?_
  rw [wp_pure, Nat.mod_eq_of_lt hstart, Nat.mod_eq_of_lt hsize, wp_bind]
  refine wp_mono (wp_insertRootCap_provided hinv halive hroom fun h => nomatch h) ?_
    fun _ _ hE => hE
  exact fun _ k' hprovided => ⟨rfl, hprovided⟩

/-- The recursion over the reserved regions, and the loops at its end. -/
theorem insertMemoryRegionCaps {reserved : List Span}
    (hfit : ∀ block ∈ cutBlocks reserved region, block.start < CONFIG_MAX_PHYSICAL_ADDRESS ∧
      2 ^ block.sizeBit < CONFIG_MAX_PHYSICAL_ADDRESS) :
    Provides env rootTask device (Setup.insertMemoryRegionCaps rootTask device reserved region)
      (cutBlocks reserved region) := by
  induction reserved generalizing region with
  | nil =>
    unfold Setup.insertMemoryRegionCaps
    unfold cutBlocks at hfit ⊢
    split
    · exact nothing
    · rename_i hvalid
      rw [if_neg hvalid] at hfit
      have hall := collect fun block hb =>
        @createMemoryCap env rootTask device block (hfit block hb).1 (hfit block hb).2
      rwa [List.flatMap_singleton'] at hall
  | cons reserved rest ih =>
    unfold Setup.insertMemoryRegionCaps
    unfold cutBlocks at hfit ⊢
    split
    · exact nothing
    · rename_i hvalid
      rw [if_neg hvalid] at hfit
      refine collect fun part hpart => ?_
      split
      · rename_i hlt
        refine ih fun block hb => hfit block (List.mem_flatMap.mpr ⟨part, hpart, ?_⟩)
        rw [if_pos hlt]
        exact hb
      · exact nothing

end Provides

/-! ### The claim -/

/-- The capabilities lie apart, are aligned to their sizes, which are powers of two, and together make
up the region without the reserved ones. -/
structure ExactCaps (device : Bool) (reserved : List Span) (region : Span) (caps : List Capability) :
    Prop where
  apart : (caps.map capSpan).Pairwise Span.Apart
  aligned : ∀ cap ∈ caps, ∃ start sizeBit, cap = .memory ⟨device, 2 ^ sizeBit, start, 0⟩ ∧
    2 ^ sizeBit ∣ start
  exact : ∀ p, (p ∈ region ∧ ∀ r ∈ reserved, p ∉ r) ↔ ∃ cap ∈ caps, p ∈ capSpan cap

theorem exactCaps_cutBlocks {reserved : List Span} (hreserved : ∀ r ∈ reserved, r.start ≤ r.stop)
    (hpos : 0 < region.start) :
    ExactCaps device reserved region ((cutBlocks reserved region).map (memoryCap device)) := by
  have hcuts := cuts_cutBlocks hreserved hpos
  have hspans : ((cutBlocks reserved region).map (memoryCap device)).map capSpan
      = (cutBlocks reserved region).map Block.span := by
    rw [List.map_map, capSpan_memoryCap]
  refine ⟨hspans ▸ hcuts.apart, fun cap hcap => ?_, fun p => ?_⟩
  · obtain ⟨block, hb, rfl⟩ := List.mem_map.mp hcap
    exact ⟨block.start, block.sizeBit, rfl, aligned_cutBlocks reserved region block hb⟩
  · rw [hcuts.exact p]
    constructor
    · rintro ⟨s, hs, hp⟩
      obtain ⟨block, hb, rfl⟩ := List.mem_map.mp hs
      exact ⟨_, List.mem_map_of_mem hb, hp⟩
    · rintro ⟨cap, hcap, hp⟩
      obtain ⟨block, hb, rfl⟩ := List.mem_map.mp hcap
      exact ⟨_, List.mem_map_of_mem hb, hp⟩

/-- The run returns whatever the region, and the root task has the capabilities that make up the
region without the reserved ones, as long as it has a free slot for each. -/
theorem insert_memory_region_caps_exact {reserved : List Span} (hpos : 0 < region.start)
    (hmax : region.stop < CONFIG_MAX_PHYSICAL_ADDRESS)
    (hreserved : ∀ r ∈ reserved, r.start ≤ r.stop) :
    ∃ caps, ExactCaps device reserved region caps ∧
      ∀ (env : Env) (k : Kernel), StoreInv k ∅ → ¬ isDead (k.tasks rootTask) →
        caps.length ≤ (k.tasks rootTask).freeSlotsCount →
        ∃ k', insertMemoryRegionCaps rootTask device reserved region env k = .ok caps k' ∧
          Provided rootTask k k' caps := by
  have hcuts := cuts_cutBlocks hreserved hpos
  have hfit := fits_of_cuts hcuts fun p hp =>
    ⟨Nat.lt_of_lt_of_le hpos hp.1.1, Nat.lt_trans hp.1.2 hmax⟩
  refine ⟨_, exactCaps_cutBlocks hreserved hpos, fun env k hinv halive hroom => ?_⟩
  rw [List.length_map] at hroom
  have hprovides : Provides env rootTask device
      (insertMemoryRegionCaps rootTask device reserved region) (cutBlocks reserved region) :=
    Provides.insertMemoryRegionCaps hfit
  obtain ⟨caps, k', hrun, rfl, hprovided⟩ := wp_returns (hprovides k hinv halive hroom)
  exact ⟨k', hrun, hprovided⟩

/-- Four pages, of which the second one is reserved twice. -/
theorem insert_memory_region_caps_exact_pages : ∃ caps,
    ExactCaps false [⟨0x2000, 0x3000⟩, ⟨0x2800, 0x3000⟩] ⟨0x1000, 0x5000⟩ caps ∧
      ∀ (env : Env) (k : Kernel), StoreInv k ∅ → ¬ isDead (k.tasks 0x1000) →
        caps.length ≤ (k.tasks 0x1000).freeSlotsCount →
        ∃ k', insertMemoryRegionCaps 0x1000 false [⟨0x2000, 0x3000⟩, ⟨0x2800, 0x3000⟩]
          ⟨0x1000, 0x5000⟩ env k = .ok caps k' ∧ Provided 0x1000 k k' caps :=
  insert_memory_region_caps_exact (by decide) (by decide) (by decide)

end Caprese.Setup
