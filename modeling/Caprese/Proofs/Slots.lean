import Caprese.Store.Boot

/-!
# `Caprese.Proofs.Slots`: every slot in its place

The slots of the attached capability spaces fall into three classes: the reserved slot of a
task, the free slots, and the slots that hold a capability. The free slots of a task are one
list, and the other slots are on derivation lists, whatever calls were made, as long as no
address wraps around in `create_object`. Behind an address that did, a new object may wipe a
capability space that is attached.
-/

set_option autoImplicit false

namespace Caprese

open Lib Prog

/-- The slot lies in a capability space that is attached to the task. -/
def Kernel.SlotOf (k : Kernel) (t : TaskPtr) (s : SlotPtr) : Prop :=
  s.index < NUM_SLOTS ∧ (k.capSpaces s.space).task = some t

/-- The first slot of the first space of a task. -/
def Kernel.Reserved (k : Kernel) (s : SlotPtr) : Prop :=
  s.index = 0 ∧ (k.capSpaces s.space).spaceIndex = 0

/-- `l` is what is found from `free_slots` along the links. -/
def Kernel.FreeFrom (k : Kernel) (t : TaskPtr) (l : List SlotPtr) : Prop :=
  k.links.IsList l ∧ (k.tasks t).freeSlots = l.head?

/-- The slot is found from `free_slots`. -/
def Kernel.FreeSlot (k : Kernel) (t : TaskPtr) (s : SlotPtr) : Prop :=
  ∃ l, k.FreeFrom t l ∧ s ∈ l

/-- Exactly one of three. -/
def ExactlyOne (p q r : Prop) : Prop := (p ∧ ¬ q ∧ ¬ r) ∨ (¬ p ∧ q ∧ ¬ r) ∨ (¬ p ∧ ¬ q ∧ r)

/-- All slots are in their places. -/
structure SlotsInOrder (k : Kernel) : Prop where
  classes : ∀ t s, k.SlotOf t s →
    ExactlyOne (k.Reserved s) (k.FreeSlot t s) (k.cap s ≠ .null)
  free : ∀ t, (k.tasks t).state ≠ .unused → ∃ l, k.FreeFrom t l ∧ l.Nodup ∧
    (k.tasks t).freeSlotsCount = l.length ∧
    ∀ s, s ∈ l ↔ k.SlotOf t s ∧ ¬ k.Reserved s ∧ k.cap s = .null
  inUse : ∀ s, k.cap s ≠ .null → ∃ l, k.links.IsList l ∧ l.Nodup ∧ s ∈ l ∧
    ∀ x ∈ l, k.cap x ≠ .null ∧ ∀ t, (k.tasks t).state ≠ .unused → ¬ k.FreeSlot t x

theorem Kernel.owner_eq_some {k : Kernel} {t : TaskPtr} {s : SlotPtr} :
    k.owner s = some t ↔ k.SlotOf t s ∧ ¬ k.Reserved s := by
  unfold Kernel.owner Kernel.SlotOf Kernel.Reserved
  split
  · rename_i h
    exact ⟨fun ht => ⟨⟨h.1, ht⟩, h.2⟩, fun ht => ht.1.2⟩
  · rename_i h
    exact ⟨fun ht => absurd ht (by simp), fun ht => absurd ⟨ht.1.1, ht.2⟩ h⟩

section Order

variable {k : Kernel} {t : TaskPtr} {s : SlotPtr} {l f : List SlotPtr}

/-- There is one list that is found from `free_slots`. -/
theorem FreeList.unique (hf : FreeList k ∅ t f) (hl : k.FreeFrom t l) : l = f := by
  have hhead : l.head? = f.head? := hl.2.symm.trans hf.head
  cases l with
  | nil => exact (List.head?_eq_none_iff.mp hhead.symm).symm
  | cons x l =>
    have hx : x ∈ f := List.mem_of_mem_head? hhead.symm
    exact hl.1.eq_of_mem hf.list (by simp) hx

theorem FreeList.freeSlot_iff (hf : FreeList k ∅ t f) :
    k.FreeSlot t s ↔ k.SlotOf t s ∧ ¬ k.Reserved s ∧ k.cap s = .null := by
  have hmem : s ∈ f ↔ k.SlotOf t s ∧ ¬ k.Reserved s ∧ k.cap s = .null := by
    rw [hf.mem, Kernel.owner_eq_some]
    simp [and_assoc]
  rw [← hmem]
  constructor
  · rintro ⟨l, hl, hs⟩
    exact hf.unique hl ▸ hs
  · intro hs
    exact ⟨f, ⟨hf.list, hf.head⟩, hs⟩

theorem StoreInv.classes (h : StoreInv k ∅) (hs : k.SlotOf t s) :
    ExactlyOne (k.Reserved s) (k.FreeSlot t s) (k.cap s ≠ .null) := by
  obtain ⟨f, hf⟩ := h.free t (h.inUse _ _ hs.2)
  rw [hf.freeSlot_iff]
  by_cases hreserved : k.Reserved s
  · have howner : k.owner s = none := by
      cases ho : k.owner s with
      | none => rfl
      | some u => exact absurd hreserved (Kernel.owner_eq_some.mp ho).2
    have hnull : k.cap s = .null := (h.outside s howner).1
    exact Or.inl ⟨hreserved, fun hfree => hfree.2.1 hreserved, fun hcap => hcap hnull⟩
  · by_cases hcap : k.cap s = .null
    · exact Or.inr (Or.inl ⟨hreserved, ⟨hs, hreserved, hcap⟩, fun hne => hne hcap⟩)
    · exact Or.inr (Or.inr ⟨hreserved, fun hfree => hcap hfree.2.2, hcap⟩)

theorem StoreInv.slotsInOrder (h : StoreInv k ∅) : SlotsInOrder k where
  classes t s hs := h.classes hs
  free t ht := by
    obtain ⟨f, hf⟩ := h.free t ht
    refine ⟨f, ⟨hf.list, hf.head⟩, hf.list.nodup, hf.count, fun s => ?_⟩
    rw [hf.mem, Kernel.owner_eq_some]
    simp [and_assoc]
  inUse s hs := by
    obtain ⟨a, b, hl⟩ := h.exists_chain hs
    refine ⟨a ++ s :: b, hl.2.1, hl.2.1.nodup, by simp, fun x hx => ⟨hl.2.2 x hx, ?_⟩⟩
    intro t ht hfree
    obtain ⟨f, hf⟩ := h.free t ht
    exact hl.2.2 x hx (hf.freeSlot_iff.mp hfree).2.2

end Order

/-- After every run of calls in which no address wraps around, and no space is attached twice,
the slots are in order. -/
theorem slots_in_order {cfg : Config} {boot : BootInfo} {k : Kernel}
    (h : Reaches cfg boot Safe k) : SlotsInOrder k :=
  (h.kernelInv fun _ _ hok => hok).links.slotsInOrder

/-- A state after two calls. -/
theorem slots_in_order_endpoint : ∃ k, Reaches sampleConfig sampleBoot Safe k ∧
    k.cap (sampleSlot 12) ≠ .null ∧ SlotsInOrder k := by
  obtain ⟨k, hreach, hcap⟩ := @sample_reaches Safe _
    [sampleTurn (.createObject (sampleSlot 6) .endpoint []),
      sampleTurn (.copyCap (sampleSlot 11))]
    (fun k => k.cap (sampleSlot 12) ≠ .null) _ (by decide +kernel)
  exact ⟨k, hreach, hcap, slots_in_order hreach⟩

/-- No space is attached twice. -/
def SpacesOnce (k : Kernel) (call : Turn × Option Answer) : Prop := AttachesOnce k call.1 call.2

instance (k : Kernel) (call : Turn × Option Answer) : Decidable (SpacesOnce k call) :=
  inferInstanceAs (Decidable (AttachesOnce k call.1 call.2))

/-- The fill level of a small memory object is rounded up beyond its end, where the first
space of a new task lies. The space that is made there wipes it, and the free list of the task
is lost. -/
theorem slots_out_of_order : ¬ ∀ (cfg : Config) (boot : BootInfo) (k : Kernel),
    Reaches cfg boot SpacesOnce k → SlotsInOrder k := by
  intro hclaim
  obtain ⟨k, hreach, hstate, hfree, hcount, hnext⟩ := @sample_reaches SpacesOnce _
    [sampleTurn (.createObject (sampleSlot 6) .mem [0x800, 0]),
      sampleTurn (.createObject (sampleSlot 11) .mem [0x400, 0]),
      sampleTurn (.createObject (sampleSlot 6) .capSpace []),
      sampleTurn (.createObject (sampleSlot 6) .pageTable []),
      sampleTurn (.createObject (sampleSlot 6) .pageTable []),
      sampleTurn (.createObject (sampleSlot 6) .pageTable []),
      sampleTurn (.createObject (sampleSlot 6) .task [13, 14, 15, 16]),
      sampleTurn (.createObject (sampleSlot 11) .capSpace [])]
    (fun k => (k.tasks 0x6000).state ≠ .unused ∧ (k.tasks 0x6000).freeSlots = some ⟨0x2000, 1⟩ ∧
      (k.tasks 0x6000).freeSlotsCount = 100 ∧ k.links.next ⟨0x2000, 1⟩ = none)
    _ (by decide +kernel)
  obtain ⟨l, hl, -, hlength, -⟩ := (hclaim _ _ k hreach).free _ hstate
  obtain ⟨l', rfl⟩ : ∃ l', l = ⟨0x2000, 1⟩ :: l' :=
    List.head?_eq_some_iff.mp (hl.2.symm.trans hfree)
  have hsingle : l' = [] := by
    have h := hl.1.2.1
    rw [hnext] at h
    cases l' with
    | nil => rfl
    | cons y l' => exact absurd h (by simp)
  rw [hcount, hsingle] at hlength
  exact absurd hlength (by simp)

end Caprese
