import Caprese.Lib.Abreast
import Caprese.Store.Revoke
import Caprese.Store.Unslotted
import Mathlib.Logic.Equiv.Basic

/-!
# `Caprese.Store.Places`: the same capabilities in other slots

`Renamed σ k k'` says that `k'` is the kernel `k` with its capabilities in the slots that the
permutation `σ` assigns to them, at the same places of the derivation lists. The free lists may
be different ones. `revoke_cap` and `destroy_cap` read of a slot what it holds and which its
neighbours are: so they go the same way in both kernels, up to `σ`, and leave kernels that are
related in the same way (`both_revokeCap`, `both_destroyCap`).
-/

set_option autoImplicit false

namespace Caprese

open Lib Prog Chains

variable {cfg : Config} {k k' k₁ k₁' : Kernel} {σ : Equiv.Perm SlotPtr} {t t' : TaskPtr}
  {s x n p : SlotPtr} {c : Capability}

/-- The capabilities of `k` are those of `k'`, in slots that `σ` assigns. -/
structure Renamed (σ : Equiv.Perm SlotPtr) (k k' : Kernel) : Prop where
  inv : StoreInv k ∅
  inv' : StoreInv k' ∅
  cap : ∀ s, k'.cap (σ s) = k.cap s
  chains : ∀ l ∈ k.chains, l.map σ ∈ k'.chains
  rest : SameRest k k'

/-! ### Neighbours -/

theorem StoreInv.next_cap (h : StoreInv k ∅) (hs : k.cap s ≠ .null)
    (hn : (k.slots s).next = some n) : k.cap n ≠ .null := by
  obtain ⟨a, b, hl⟩ := h.exists_chain hs
  rw [next_eq hl] at hn
  exact hl.2.2 n (by simp [List.mem_of_head? hn])

theorem StoreInv.prev_cap (h : StoreInv k ∅) (hs : k.cap s ≠ .null)
    (hp : (k.slots s).prev = some p) : k.cap p ≠ .null ∧ p ≠ s := by
  obtain ⟨a, b, hl⟩ := h.exists_chain hs
  rw [prev_eq hl] at hp
  have hpa : p ∈ a := List.mem_of_getLast? hp
  refine ⟨hl.2.2 p (by simp [hpa]), ?_⟩
  rintro rfl
  exact (h.storeOk.nodup hl).1 hpa

namespace Renamed

variable (h : Renamed σ k k')

include h

theorem exists_chain (hs : k.cap s ≠ .null) : ∃ a b, a ++ s :: b ∈ k.chains ∧
    a.map σ ++ σ s :: b.map σ ∈ k'.chains := by
  obtain ⟨a, b, hl⟩ := h.inv.exists_chain hs
  refine ⟨a, b, hl, ?_⟩
  have hl' := h.chains _ hl
  rwa [List.map_append, List.map_cons] at hl'

theorem next (hs : k.cap s ≠ .null) : (k'.slots (σ s)).next = ((k.slots s).next).map σ := by
  obtain ⟨a, b, hl, hl'⟩ := h.exists_chain hs
  rw [next_eq hl, next_eq hl', List.head?_map]

theorem prev (hs : k.cap s ≠ .null) : (k'.slots (σ s)).prev = ((k.slots s).prev).map σ := by
  obtain ⟨a, b, hl, hl'⟩ := h.exists_chain hs
  rw [prev_eq hl, prev_eq hl', List.getLast?_map]

theorem isTail (hs : k.cap s ≠ .null) : (k'.slots (σ s)).isTail = (k.slots s).isTail := by
  unfold CapSlot.isTail
  rw [h.next hs, Option.isNone_map]

theorem pageTables : k'.pageTables = k.pageTables := by
  have hrest : k'.unslotted = k.unslotted := h.rest
  have htables : k'.unslotted.pageTables = k.unslotted.pageTables := by rw [hrest]
  exact htables

/-! ### Stores -/

/-- Stores to other parts of both kernels. -/
theorem frame (hf : StoreFrame k k₁) (hf' : StoreFrame k' k₁') (hrest : SameRest k₁ k₁') :
    Renamed σ k₁ k₁' where
  inv := hf.storeInv h.inv
  inv' := hf'.storeInv h.inv'
  cap s := by rw [hf.cap, hf'.cap, h.cap]
  chains l hl := by
    rw [hf.chains] at hl
    rw [hf'.chains]
    exact h.chains l hl
  rest := hrest

theorem setCap (hs : k.cap s ≠ .null) (hc : c ≠ .null) :
    Renamed σ (k.setCap s c) (k'.setCap (σ s) c) := by
  have hs' : k'.cap (σ s) ≠ .null := by rwa [h.cap]
  refine ⟨h.inv.update hs hc, h.inv'.update hs' hc, fun w => ?_, fun l hl => ?_, h.rest⟩
  · rw [Kernel.setCap_cap, Kernel.setCap_cap, upd_apply, upd_apply, h.cap]
    simp only [EmbeddingLike.apply_eq_iff_eq]
  · rw [update_chains hs hc] at hl
    rw [update_chains hs' hc]
    exact h.chains l hl

/-- A slot is given back, to the free list of whichever task it belongs to. -/
theorem freed (hs : k.cap s ≠ .null) (ht : k.owner s = some t) (ht' : k'.owner (σ s) = some t') :
    Renamed σ (k.freed t s) (k'.freed t' (σ s)) := by
  obtain ⟨a, b, hl, hl'⟩ := h.exists_chain hs
  have hs' : k'.cap (σ s) ≠ .null := by rwa [h.cap]
  obtain ⟨hinv, -⟩ := h.inv.freed_store ht hl
  obtain ⟨hinv', -⟩ := h.inv'.freed_store ht' hl'
  refine ⟨hinv, hinv', fun w => ?_, fun l => ?_, ?_⟩
  · rw [Kernel.freed_cap, Kernel.freed_cap, upd_apply, upd_apply, h.cap]
    simp only [EmbeddingLike.apply_eq_iff_eq]
  · rw [h.inv.freed_chains ht hs hl, h.inv'.freed_chains ht' hs' hl']
    rintro (⟨hold, hsl, hnew⟩ | ⟨rfl, hne⟩)
    · refine Or.inl ⟨h.chains l hold, by simpa using hsl, fun z hz => ?_⟩
      rw [← List.map_append] at hz
      obtain ⟨w, hw, rfl⟩ := List.mem_map.mp hz
      simpa using hnew w hw
    · exact Or.inr ⟨List.map_append, by rwa [← List.map_append, ne_eq, List.map_eq_nil_iff]⟩
  · show (k'.freed t' (σ s)).unslotted = (k.freed t s).unslotted
    rw [freed_unslotted, freed_unslotted]
    exact h.rest

/-- The lists are the same ones. -/
theorem mem_chains_iff {l : List SlotPtr} : l.map σ ∈ k'.chains ↔ l ∈ k.chains := by
  refine ⟨fun hl => ?_, h.chains l⟩
  obtain ⟨s, hs⟩ := List.exists_mem_of_ne_nil _ (List.map_eq_nil_iff.not.mp hl.1)
  have hsc : k.cap s ≠ .null := by
    rw [← h.cap]
    exact hl.2.2 _ (List.mem_map_of_mem hs)
  obtain ⟨a, b, hm, hm'⟩ := h.exists_chain hsc
  have heq := k'.chains_valid.unique _ hl _ hm' (σ s) (List.mem_map_of_mem hs) (by simp)
  rw [← List.map_cons, ← List.map_append] at heq
  rwa [List.map_injective_iff.mpr σ.injective heq]

end Renamed

/-! ### Reading side by side -/

/-- Two runs that give the processor away leave kernels with the same capabilities. -/
def Parted (σ : Equiv.Perm SlotPtr) : Stop → Kernel → Kernel → Prop := fun e k k' =>
  e = .switched → Renamed σ k k'

section Both

variable {α α' β β' : Type} {Q : α → α' → Kernel → Kernel → Prop}

theorem both_kassert {q q' : Prop} [Decidable q] [Decidable q']
    {Q : Unit → Unit → Kernel → Kernel → Prop} (hq : q' ↔ q) (hQ : q → Q () () k k') :
    wpBoth (kassert q) (kassert q') (.debug cfg) Q (Parted σ) k k' := by
  refine wpBoth_ask (wpBoth_ite Iff.rfl (fun hd => nomatch hd) fun _ => ?_)
  exact wpBoth_ite hq (fun hc => wpBoth_pure (hQ hc)) fun _ => wpBoth_stop fun he => nomatch he

theorem both_deref {o : Option SlotPtr} {Q : SlotPtr → SlotPtr → Kernel → Kernel → Prop}
    (hQ : ∀ s, o = some s → Q s (σ s) k k') :
    wpBoth (deref o) (deref (o.map σ)) (.debug cfg) Q (Parted σ) k k' := by
  cases o with
  | none => exact wpBoth_stop fun he => nomatch he
  | some s => exact wpBoth_pure (hQ s rfl)

theorem both_kloop {body : α → K (α ⊕ β)} {body' : α' → K (α' ⊕ β')}
    {Q : β → β' → Kernel → Kernel → Prop} (I : α → α' → Kernel → Kernel → Prop) {a : α} {b : α'}
    (hI : I a b k k') (hbody : ∀ a b k k', I a b k k' →
      wpBoth (body a) (body' b) (.debug cfg) (fun c d k₁ k₁' =>
        (∃ a' b', c = .inl a' ∧ d = .inl b' ∧ I a' b' k₁ k₁') ∨
          ∃ a' b', c = .inr a' ∧ d = .inr b' ∧ Q a' b' k₁ k₁') (Parted σ) k k') :
    wpBoth (kloop body a) (kloop body' b) (.debug cfg) Q (Parted σ) k k' :=
  wpBoth_ask (wpBoth_loop I (fun _ _ _ _ _ he => nomatch he) hbody _ _ _ _ _ hI)

variable (h : Renamed σ k k')

include h

theorem both_skipZombies (hs : k.cap s ≠ .null) {Q : SlotPtr → SlotPtr → Kernel → Kernel → Prop}
    (hQ : ∀ u, k.cap u ≠ .null → Q u (σ u) k k') :
    wpBoth (skipZombies s) (skipZombies (σ s)) (.debug cfg) Q (Parted σ) k k' := by
  refine both_kloop (fun u v k₁ k₁' => k₁ = k ∧ k₁' = k' ∧ v = σ u ∧ k.cap u ≠ .null)
    ⟨rfl, rfl, rfl, hs⟩ ?_
  rintro u v k₁ k₁' ⟨hk, hk', hv, hu⟩
  subst hk hk' hv
  refine wpBoth_get (wpBoth_ite (by rw [h.cap]) (fun _ => ?_) fun _ => ?_)
  · refine wpBoth_get (wpBoth_bind ?_)
    rw [h.next hu]
    refine both_deref fun n hn => wpBoth_pure (.inl ⟨n, σ n, rfl, rfl, rfl, rfl, rfl, ?_⟩)
    exact h.inv.next_cap hu hn
  · exact wpBoth_pure (.inr ⟨u, σ u, rfl, rfl, hQ u hu⟩)

theorem both_lastSlot (hs : k.cap s ≠ .null) {Q : SlotPtr → SlotPtr → Kernel → Kernel → Prop}
    (hQ : ∀ u, k.cap u ≠ .null → Q u (σ u) k k') :
    wpBoth (lastSlot s) (lastSlot (σ s)) (.debug cfg) Q (Parted σ) k k' := by
  refine both_kloop (fun u v k₁ k₁' => k₁ = k ∧ k₁' = k' ∧ v = σ u ∧ k.cap u ≠ .null)
    ⟨rfl, rfl, rfl, hs⟩ ?_
  rintro u v k₁ k₁' ⟨hk, hk', hv, hu⟩
  subst hk hk' hv
  refine wpBoth_get ?_
  rw [h.next hu]
  cases hn : (k₁.slots u).next with
  | none => exact wpBoth_pure (.inr ⟨u, σ u, rfl, rfl, hQ u hu⟩)
  | some n =>
    exact wpBoth_pure (.inl ⟨n, σ n, rfl, rfl, rfl, rfl, rfl, h.inv.next_cap hu hn⟩)

theorem both_isSameObject (hs : k.cap s ≠ .null) (hn : k.cap n ≠ .null)
    {Q : Bool → Bool → Kernel → Kernel → Prop} (hQ : ∀ r, Q r r k k') :
    wpBoth (isSameObject s n) (isSameObject (σ s) (σ n)) (.debug cfg) Q (Parted σ) k k' := by
  refine wpBoth_bind (both_skipZombies h hs fun u hu => ?_)
  refine wpBoth_bind (both_skipZombies h hn fun v hv => ?_)
  refine wpBoth_ite (by rw [EmbeddingLike.apply_eq_iff_eq]) (fun _ => wpBoth_pure (hQ true)) fun _ => ?_
  refine wpBoth_get (wpBoth_get ?_)
  rw [h.cap, h.cap]
  exact wpBoth_pure (hQ _)

theorem both_checkSlotTask (hs : k.cap s ≠ .null) {Q : Unit → Unit → Kernel → Kernel → Prop}
    (hQ : Q () () k k') :
    wpBoth (checkSlotTask s) (checkSlotTask (σ s)) (.debug cfg) Q (Parted σ) k k' := by
  obtain ⟨t, ht⟩ := h.inv.owner_of_cap hs
  obtain ⟨t', ht'⟩ := h.inv'.owner_of_cap (s := σ s) (by rwa [h.cap])
  refine wpBoth_of_wp (wp_checkSlotTask.mpr ?_)
  rw [Kernel.owner_slotTask ht]
  dsimp only
  rw [if_neg (h.inv.inUse_of_owner ht), wp_checkSlotTask, Kernel.owner_slotTask ht']
  dsimp only
  rwa [if_neg (h.inv'.inUse_of_owner ht')]

theorem both_checkLast (hs : k.cap s ≠ .null) {Q : Unit → Unit → Kernel → Kernel → Prop}
    (hQ : Q () () k k') :
    wpBoth (checkLast s) (checkLast (σ s)) (.debug cfg) Q (Parted σ) k k' := by
  refine wpBoth_get ?_
  rw [h.next hs]
  cases hn : (k.slots s).next with
  | none => exact wpBoth_pure hQ
  | some n =>
    refine wpBoth_bind (both_isSameObject h hs (h.inv.next_cap hs hn) fun same => ?_)
    exact both_kassert Iff.rfl fun _ => hQ

/-! ### Destructors -/

/-- The two kernels still have the same capabilities, and no slot was emptied but those of `out`. -/
structure Kept (σ : Equiv.Perm SlotPtr) (out : Set SlotPtr) (k k₁ k₁' : Kernel) : Prop where
  renamed : Renamed σ k₁ k₁'
  kept : ∀ w, w ∉ out → k.cap w ≠ .null → k₁.cap w ≠ .null

omit h in
theorem Kept.of_frame (h : Renamed σ k₁ k₁') (hf : StoreFrame k k₁) : Kept σ ∅ k k₁ k₁' :=
  ⟨h, fun w _ hw => by rwa [hf.cap]⟩

/-- A program that works on the rest of the kernel. -/
theorem both_rest {m : K α} {Q : α → α → Kernel → Kernel → Prop}
    (htwins : Twins (.debug cfg) SameRest (fun _ => True) m)
    (hframe : ∀ k, wp m (.debug cfg) (fun _ k' => CapFrame k k')
      (fun e k' => e = .switched → CapFrame k k') k)
    (hQ : ∀ a k₁ k₁', Kept σ ∅ k k₁ k₁' → Q a a k₁ k₁') :
    wpBoth m m (.debug cfg) Q (Parted σ) k k' := by
  refine wpBoth_mono (wpBoth_and (htwins.both h.rest) (hframe k) (hframe k')) ?_ ?_
  · rintro a _ k₁ k₁' ⟨⟨rfl, hrest⟩, hf, hf'⟩
    have hf₁ : StoreFrame k k₁ := hf.toStoreFrame
    have hf₁' : StoreFrame k' k₁' := hf'.toStoreFrame
    exact hQ _ k₁ k₁' (.of_frame (h.frame hf₁ hf₁' hrest) hf₁)
  · rintro e k₁ k₁' ⟨hrest, hf, hf'⟩ he
    exact h.frame (hf he).toStoreFrame (hf' he).toStoreFrame hrest

theorem both_clearEntry (parent : Option TablePtr) (va level : Nat) (object : PhysAddr)
    {Q : Unit → Unit → Kernel → Kernel → Prop}
    (hQ : ∀ k₁ k₁', Kept σ ∅ k k₁ k₁' → Q () () k₁ k₁') :
    wpBoth (clearEntry parent va level object) (clearEntry parent va level object) (.debug cfg) Q
      (Parted σ) k k' := by
  cases parent with
  | none => exact wpBoth_pure (hQ k k' (.of_frame h (.refl k)))
  | some table =>
    have hpte : ∀ i, k'.pte table i = k.pte table i := fun i =>
      congrFun (congrFun h.pageTables table) i
    have hframe : ∀ (k : Kernel) i e, StoreFrame k (k.setPte table i e) := fun _ _ _ =>
      ⟨rfl, rfl, fun _ => rfl, fun _ => rfl, fun _ => Iff.rfl⟩
    refine wpBoth_bind (wpBoth_bind (both_kassert Iff.rfl fun _ => ?_))
    refine wpBoth_bind (both_kassert Iff.rfl fun _ => wpBoth_pure (wpBoth_get ?_))
    refine wpBoth_bind (both_kassert (by rw [hpte]) fun _ => wpBoth_get ?_)
    refine wpBoth_bind (both_kassert (by rw [hpte]) fun _ => wpBoth_modify (hQ _ _ ?_))
    refine .of_frame (h.frame (hframe k _ _) (hframe k' _ _) ?_) (hframe k _ _)
    have hrest : k'.unslotted = k.unslotted := h.rest
    rw [hpte]
    exact congrArg (fun k : Kernel => k.setPte table _ _) hrest

theorem both_destroyObject (hs : k.cap s ≠ .null) {Q : Unit → Unit → Kernel → Kernel → Prop}
    (hQ : ∀ k₁ k₁', Kept σ ∅ k k₁ k₁' → Q () () k₁ k₁') :
    wpBoth (destroyObject s) (destroyObject (σ s)) (.debug cfg) Q (Parted σ) k k' := by
  have hrefl : Kept σ ∅ k k k' := .of_frame h (.refl k)
  have hrecord : ∀ (k : Kernel) e, StoreFrame k (k.record e) := fun _ _ =>
    ⟨rfl, rfl, fun _ => rfl, fun _ => rfl, fun _ => Iff.rfl⟩
  have hrecords : ∀ e, Renamed σ (k.record e) (k'.record e) := fun e => by
    refine h.frame (hrecord k e) (hrecord k' e) ?_
    have hrest : k'.unslotted = k.unslotted := h.rest
    exact congrArg (fun k : Kernel => k.record e) hrest
  have hafter : ∀ e k₁ k₁', Kept σ ∅ (k.record e) k₁ k₁' → Kept σ ∅ k k₁ k₁' := fun e k₁ k₁' hk =>
    ⟨hk.renamed, hk.kept⟩
  refine wpBoth_get ?_
  rw [h.cap]
  cases hc : k.cap s with
  | null => exact absurd hc hs
  | zombie => exact wpBoth_stop fun he => nomatch he
  | memory m =>
    refine wpBoth_get (wpBoth_bind (both_kassert (by rw [h.isTail hs]) fun _ => ?_))
    refine wpBoth_bind (wpBoth_get ?_)
    rw [h.cap, hc]
    refine wpBoth_pure (wpBoth_modify (hQ _ _ ⟨h.setCap hs (by simp), fun w _ hw => ?_⟩))
    rw [Kernel.setCap_cap, upd_apply]
    split
    · exact fun heq => nomatch heq
    · exact hw
  | task cap =>
    refine wpBoth_bind (both_checkLast h hs (wpBoth_bind (wpBoth_get ?_)))
    rw [h.cap, hc]
    refine wpBoth_pure (wpBoth_bind (wpBoth_modify ?_))
    refine both_rest (hrecords _) (twins_killTask _ _) (fun k => ?_) fun _ k₁ k₁' hk =>
      hQ k₁ k₁' (hafter _ k₁ k₁' hk)
    exact wp_mono (wp_killTask cap.task 0) (fun _ _ hf => hf) fun _ _ hf _ => hf
  | endpoint cap =>
    refine wpBoth_bind (both_checkLast h hs (wpBoth_bind (wpBoth_get ?_)))
    rw [h.cap, hc]
    refine wpBoth_pure (wpBoth_bind (wpBoth_modify ?_))
    exact both_rest (hrecords _) (twins_ipcCancel _) (fun _ => wp_ipcCancel _) fun _ k₁ k₁' hk =>
      hQ k₁ k₁' (hafter _ k₁ k₁' hk)
  | pageTable cap =>
    refine wpBoth_bind (both_checkLast h hs (wpBoth_bind (wpBoth_get ?_)))
    rw [h.cap, hc]
    exact wpBoth_pure (both_clearEntry h _ _ _ _ hQ)
  | virtPage cap =>
    refine wpBoth_bind (both_checkLast h hs (wpBoth_bind (wpBoth_get ?_)))
    rw [h.cap, hc]
    exact wpBoth_pure (both_clearEntry h _ _ _ _ hQ)
  | capSpace cap =>
    refine wpBoth_bind (both_checkLast h hs (wpBoth_bind (wpBoth_get ?_)))
    rw [h.cap, hc]
    exact wpBoth_pure (hQ k k' hrefl)
  | id cap =>
    refine wpBoth_bind (both_checkLast h hs (wpBoth_bind (wpBoth_get ?_)))
    rw [h.cap, hc]
    exact wpBoth_pure (hQ k k' hrefl)

/-! ### Slots that are given back -/

theorem both_freeSlot (hs : k.cap s ≠ .null) {Q : Unit → Unit → Kernel → Kernel → Prop}
    (hQ : ∀ k₁ k₁', Kept σ {s} k k₁ k₁' → Q () () k₁ k₁') :
    wpBoth (freeSlot s) (freeSlot (σ s)) (.debug cfg) Q (Parted σ) k k' := by
  obtain ⟨t, ht⟩ := h.inv.owner_of_cap hs
  obtain ⟨t', ht'⟩ := h.inv'.owner_of_cap (s := σ s) (by rwa [h.cap])
  refine wpBoth_of_wp (wp_freeSlot h.inv ht (wp_freeSlot h.inv' ht' ?_))
  refine hQ _ _ ⟨h.freed hs ht ht', fun w hw hwc => ?_⟩
  rwa [Kernel.freed_cap, upd_ne _ _ hw]

/-- The slot leaves its list and is given back. -/
theorem both_eraseFreeSlot (hs : k.cap s ≠ .null) {Q : Unit → Unit → Kernel → Kernel → Prop}
    (hQ : ∀ k₁ k₁', Kept σ {s} k k₁ k₁' → Q () () k₁ k₁') :
    wpBoth (do let _ ← eraseThis s; freeSlot s) (do let _ ← eraseThis (σ s); freeSlot (σ s))
      (.debug cfg) Q (Parted σ) k k' := by
  obtain ⟨t, ht⟩ := h.inv.owner_of_cap hs
  obtain ⟨t', ht'⟩ := h.inv'.owner_of_cap (s := σ s) (by rwa [h.cap])
  refine wpBoth_of_wp ((wp_bind _ _).mpr (wp_eraseFreeSlot h.inv ht ?_))
  refine (wp_bind _ _).mpr (wp_eraseFreeSlot h.inv' ht' ?_)
  refine hQ _ _ ⟨h.freed hs ht ht', fun w hw hwc => ?_⟩
  rwa [Kernel.freed_cap, upd_ne _ _ hw]

theorem both_destroyCapSlot (hs : k.cap s ≠ .null) {Q : Unit → Unit → Kernel → Kernel → Prop}
    (hQ : ∀ k₁ k₁', Kept σ {s} k k₁ k₁' → Q () () k₁ k₁') :
    wpBoth (destroyCapSlot s) (destroyCapSlot (σ s)) (.debug cfg) Q (Parted σ) k k' := by
  -- The end of the function, behind whatever became of the object.
  have hrest : ∀ k₁ k₁', Kept σ ∅ k k₁ k₁' →
      wpBoth (do let _ ← eraseThis s; freeSlot s) (do let _ ← eraseThis (σ s); freeSlot (σ s))
        (.debug cfg) Q (Parted σ) k₁ k₁' := by
    intro k₁ k₁' hk
    refine both_eraseFreeSlot hk.renamed (hk.kept s (Set.notMem_empty s) hs) fun k₂ k₂' hk₂ => ?_
    exact hQ k₂ k₂' ⟨hk₂.renamed, fun w hw hwc => hk₂.kept w hw (hk.kept w (Set.notMem_empty w) hwc)⟩
  refine wpBoth_get (wpBoth_bind (both_kassert (by rw [h.isTail hs]) fun _ => ?_))
  refine wpBoth_bind (both_checkSlotTask h hs (wpBoth_get ?_))
  rw [h.prev hs]
  cases hp : (k.slots s).prev with
  | none => exact wpBoth_bind (both_destroyObject h hs hrest)
  | some p =>
    obtain ⟨hpc, -⟩ := h.inv.prev_cap hs hp
    refine wpBoth_get (wpBoth_ite (by rw [h.cap]) (fun _ => ?_) fun _ => ?_)
    · refine wpBoth_bind (wpBoth_modify (hrest _ _ ?_))
      rw [h.cap]
      refine ⟨h.setCap hpc hs, fun w _ hw => ?_⟩
      rw [Kernel.setCap_cap, upd_apply]
      split
      · exact hs
      · exact hw
    · refine wpBoth_bind (both_isSameObject h hpc hs fun same => ?_)
      refine wpBoth_ite Iff.rfl (fun _ => wpBoth_bind (both_destroyObject h hs hrest)) fun _ => ?_
      exact hrest k k' (.of_frame h (.refl k))

/-! ### `revoke_cap` -/

theorem both_setErrno (e : SysError) {Q : Unit → Unit → Kernel → Kernel → Prop}
    (hQ : ∀ k₁ k₁', Renamed σ k₁ k₁' → Q () () k₁ k₁') :
    wpBoth (setErrno e) (setErrno e) (.debug cfg) Q (Parted σ) k k' := by
  refine wpBoth_modify (hQ _ _ (h.frame (CapFrame.errno k e).toStoreFrame
    (CapFrame.errno k' e).toStoreFrame ?_))
  have hrest : k'.unslotted = k.unslotted := h.rest
  exact congrArg (fun k : Kernel => { k with errno := e }) hrest

/-- The loops back to `x`, with a body that empties one slot. -/
theorem both_backTo {body : SlotPtr → K Unit} (hx : k.cap x ≠ .null) (hs : k.cap s ≠ .null)
    (hbody : ∀ s k k', Renamed σ k k' → k.cap s ≠ .null → wpBoth (body s) (body (σ s)) (.debug cfg)
      (fun _ _ k₁ k₁' => Kept σ {s} k k₁ k₁') (Parted σ) k k')
    {Q : Unit → Unit → Kernel → Kernel → Prop}
    (hQ : ∀ k₁ k₁', Renamed σ k₁ k₁' → k₁.cap x ≠ .null → Q () () k₁ k₁') :
    wpBoth (backTo x body s) (backTo (σ x) body (σ s)) (.debug cfg) Q (Parted σ) k k' := by
  refine both_kloop (fun u v k₁ k₁' => v = σ u ∧ Renamed σ k₁ k₁' ∧ k₁.cap x ≠ .null ∧
    k₁.cap u ≠ .null) ⟨rfl, h, hx, hs⟩ ?_
  rintro u _ k₁ k₁' ⟨rfl, h₁, hx₁, hu⟩
  refine wpBoth_ite (by rw [EmbeddingLike.apply_eq_iff_eq]) (fun _ => ?_) fun hux => ?_
  · exact wpBoth_pure (.inr ⟨(), (), rfl, rfl, hQ k₁ k₁' h₁ hx₁⟩)
  · refine wpBoth_get ?_
    dsimp only
    rw [h₁.prev hu]
    refine wpBoth_bind (wpBoth_mono (hbody u k₁ k₁' h₁ hu) ?_ fun _ _ _ hE => hE)
    rintro _ _ k₂ k₂' hk₂
    refine wpBoth_bind (both_deref fun p hp => ?_)
    obtain ⟨hpc, hpu⟩ := h₁.inv.prev_cap hu hp
    refine wpBoth_pure (.inl ⟨p, σ p, rfl, rfl, rfl, hk₂.renamed, ?_, hk₂.kept p hpu hpc⟩)
    exact hk₂.kept x (Ne.symm hux) hx₁

/-- A revocation that does not fail leaves a capability. -/
theorem both_revokeCap {Q : Bool → Bool → Kernel → Kernel → Prop}
    (hQ : ∀ r k₁ k₁', Renamed σ k₁ k₁' → (r = true → k₁.cap x ≠ .null) → Q r r k₁ k₁') :
    wpBoth (revokeCap x) (revokeCap (σ x)) (.debug cfg) Q (Parted σ) k k' := by
  refine wpBoth_get ?_
  dsimp only
  rw [h.cap]
  refine wpBoth_ite Iff.rfl (fun _ => ?_) fun htype => ?_
  · refine wpBoth_bind (both_setErrno h _ fun k₁ k₁' h₁ => wpBoth_pure ?_)
    exact hQ false k₁ k₁' h₁ fun heq => nomatch heq
  · have hx : k.cap x ≠ .null := by
      intro heq
      simp [heq, getCapType] at htype
    refine wpBoth_bind (both_checkSlotTask h hx ?_)
    refine wpBoth_ite Iff.rfl (fun _ => ?_) fun _ => ?_
    · refine wpBoth_bind (both_lastSlot h hx fun u hu => wpBoth_bind ?_)
      refine both_backTo h hx hu (fun s k k' h hs => ?_) fun k₁ k₁' h₁ hx₁ => ?_
      · exact both_destroyCapSlot h hs fun _ _ hk => hk
      · exact wpBoth_pure (hQ true k₁ k₁' h₁ fun _ => hx₁)
    · refine wpBoth_get (wpBoth_bind ?_)
      rw [h.next hx]
      refine both_deref fun n hn => wpBoth_bind ?_
      refine both_skipZombies h (h.inv.next_cap hx hn) fun e he => wpBoth_get ?_
      rw [h.cap]
      refine wpBoth_bind (both_backTo h hx he (fun s k k' h hs => ?_) fun k₁ k₁' h₁ hx₁ => ?_)
      · exact both_eraseFreeSlot h hs fun _ _ hk => hk
      · refine wpBoth_bind (wpBoth_modify (wpBoth_pure (hQ true _ _ (h₁.setCap hx₁ he) ?_)))
        intro _
        rw [Kernel.setCap_cap, upd_same]
        exact he

/-! ### `destroy_cap` -/

theorem both_isSameNeighbor {o : Option SlotPtr} (ho : ∀ n, o = some n → k.cap n ≠ .null)
    (hx : k.cap x ≠ .null) {Q : Bool → Bool → Kernel → Kernel → Prop} (hQ : ∀ r, Q r r k k') :
    wpBoth (isSameNeighbor o x) (isSameNeighbor (o.map σ) (σ x)) (.debug cfg) Q (Parted σ) k k' := by
  cases o with
  | none => exact wpBoth_pure (hQ false)
  | some n => exact both_isSameObject h (ho n rfl) hx hQ

theorem both_hasSameNeighbor (hx : k.cap x ≠ .null) {Q : Bool → Bool → Kernel → Kernel → Prop}
    (hQ : ∀ r, Q r r k k') :
    wpBoth (hasSameNeighbor x) (hasSameNeighbor (σ x)) (.debug cfg) Q (Parted σ) k k' := by
  refine wpBoth_get (wpBoth_bind ?_)
  rw [h.prev hx]
  refine both_isSameNeighbor h (fun p hp => (h.inv.prev_cap hx hp).1) hx fun same => ?_
  refine wpBoth_ite Iff.rfl (fun _ => wpBoth_pure (hQ true)) fun _ => wpBoth_get ?_
  rw [h.next hx]
  exact both_isSameNeighbor h (fun n hn => h.inv.next_cap hx hn) hx hQ

theorem both_destroyRevoked (hx : k.cap x ≠ .null) {Q : Bool → Bool → Kernel → Kernel → Prop}
    (hQ : ∀ r k₁ k₁', Renamed σ k₁ k₁' → Q r r k₁ k₁') :
    wpBoth (destroyRevoked x) (destroyRevoked (σ x)) (.debug cfg) Q (Parted σ) k k' := by
  -- The slot leaves its list, beside another one of its object.
  have hdrop : wpBoth (do let _ ← eraseThis x; freeSlot x; return true)
      (do let _ ← eraseThis (σ x); freeSlot (σ x); return true) (.debug cfg) Q (Parted σ) k k' := by
    obtain ⟨t, ht⟩ := h.inv.owner_of_cap hx
    obtain ⟨t', ht'⟩ := h.inv'.owner_of_cap (s := σ x) (by rwa [h.cap])
    refine wpBoth_of_wp ?_
    simp only [wp_bind, wp_pure]
    exact wp_eraseFreeSlot h.inv ht (wp_eraseFreeSlot h.inv' ht' (hQ true _ _ (h.freed hx ht ht')))
  refine wpBoth_bind (both_hasSameNeighbor h hx fun same => wpBoth_ite Iff.rfl (fun _ => ?_) fun _ => ?_)
  · refine wpBoth_bind (both_destroyObject h hx fun k₁ k₁' hk => wpBoth_bind ?_)
    refine both_freeSlot hk.renamed (hk.kept x (Set.notMem_empty x) hx) fun k₂ k₂' hk₂ => ?_
    exact wpBoth_pure (hQ true k₂ k₂' hk₂.renamed)
  · refine wpBoth_get ?_
    rw [h.prev hx]
    cases hp : (k.slots x).prev with
    | none => exact hdrop
    | some p =>
      obtain ⟨hpc, -⟩ := h.inv.prev_cap hx hp
      refine wpBoth_get (wpBoth_ite (by rw [h.cap]) (fun _ => ?_) fun _ => hdrop)
      refine wpBoth_bind (both_isSameObject h hpc hx fun same => wpBoth_bind ?_)
      refine both_kassert Iff.rfl fun _ => ?_
      exact both_revokeCap h fun r k₁ k₁' h₁ _ => hQ r k₁ k₁' h₁

theorem both_destroyCap {Q : Bool → Bool → Kernel → Kernel → Prop}
    (hQ : ∀ r k₁ k₁', Renamed σ k₁ k₁' → Q r r k₁ k₁') :
    wpBoth (destroyCap x) (destroyCap (σ x)) (.debug cfg) Q (Parted σ) k k' := by
  refine wpBoth_get ?_
  dsimp only
  rw [h.cap]
  refine wpBoth_ite Iff.rfl (fun _ => ?_) fun hnull => ?_
  · refine wpBoth_bind (both_setErrno h _ fun k₁ k₁' h₁ => wpBoth_pure ?_)
    exact hQ false k₁ k₁' h₁
  · have hx : k.cap x ≠ .null := by
      intro heq
      simp [heq, getCapType] at hnull
    refine wpBoth_ite Iff.rfl (fun _ => ?_) fun _ => both_destroyRevoked h hx hQ
    refine wpBoth_bind (both_revokeCap h fun r k₁ k₁' h₁ hr => ?_)
    refine wpBoth_ite Iff.rfl (fun _ => wpBoth_pure (hQ false k₁ k₁' h₁)) fun htrue => ?_
    exact both_destroyRevoked h₁ (hr (by simpa using htrue)) hQ

end Both

end Caprese
