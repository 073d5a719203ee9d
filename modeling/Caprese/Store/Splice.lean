import Caprese.Store.Invariant
import Mathlib.Data.Set.Insert

/-!
# `Caprese.Store.Splice`: the invariant through one store

One section for each kind of store that the operations on slots are made of. A section gives
the state after the store as a function of the state before, the run of the source function
that ends in it, and the invariant and the derivation lists in that state.
-/

set_option autoImplicit false

namespace Caprese

open Lib Prog Chains

variable {cfg : Config} {k k' : Kernel} {held held' : Set SlotPtr} {s x y : SlotPtr}
  {t t' : TaskPtr} {a b f l : List SlotPtr} {c : Capability} {E : Stop → Kernel → Prop}

namespace Kernel

variable (k : Kernel)

theorem setLinks_setCap (L : Links SlotPtr) (s : SlotPtr) (c : Capability) :
    (k.setCap s c).setLinks L = (k.setLinks L).setCap s c := by
  unfold setCap setLinks
  congr 1
  funext z
  by_cases h : z = s <;> simp [upd_apply, h]

@[simp] theorem setLinks_owner (L : Links SlotPtr) : (k.setLinks L).owner = k.owner := rfl

@[simp] theorem setCap_owner (s : SlotPtr) (c : Capability) : (k.setCap s c).owner = k.owner :=
  rfl

@[simp] theorem setTask_owner (t : TaskPtr) (task : Task) : (k.setTask t task).owner = k.owner :=
  rfl

end Kernel

/-- A free list is read off its nodes, its task and the empty slots of the task. -/
theorem FreeList.congr (h : FreeList k held t f)
    (hlinks : ∀ s ∈ f, k'.links.prev s = k.links.prev s ∧ k'.links.next s = k.links.next s)
    (hslots : (k'.tasks t).freeSlots = (k.tasks t).freeSlots)
    (hcount : (k'.tasks t).freeSlotsCount = (k.tasks t).freeSlotsCount)
    (hmem : ∀ s, (k'.owner s = some t ∧ k'.cap s = .null ∧ s ∉ held') ↔
      (k.owner s = some t ∧ k.cap s = .null ∧ s ∉ held)) : FreeList k' held' t f where
  list := h.list.congr hlinks
  head := hslots.trans h.head
  count := hcount.trans h.count
  mem s := (h.mem s).trans (hmem s).symm

/-! ### An empty slot leaves its free list -/

/-- The state after `pop_free_slots` of the slot `s`. -/
def Kernel.popped (k : Kernel) (t : TaskPtr) (s : SlotPtr) : Kernel :=
  (k.setLinks (k.links.erase s)).setTask t { k.tasks t with
    freeSlots := (k.links.next s).or (k.links.prev s)
    freeSlotsCount := (k.tasks t).freeSlotsCount - 1 }

section Popped

@[simp] theorem Kernel.popped_links : (k.popped t s).links = k.links.erase s := rfl

@[simp] theorem Kernel.popped_cap : (k.popped t s).cap = k.cap := rfl

@[simp] theorem Kernel.popped_owner : (k.popped t s).owner = k.owner := rfl

@[simp] theorem Kernel.popped_capSpaces : (k.popped t s).capSpaces = k.capSpaces := rfl

theorem Kernel.popped_state : ((k.popped t s).tasks t').state = (k.tasks t').state := by
  by_cases h : t' = t <;> simp [popped, upd_apply, h]

theorem wp_popFreeSlots {env : Env} {Q : Option SlotPtr → Kernel → Prop}
    (h : StoreInv k held) (hu : (k.tasks t).state ≠ .unused) :
    wp (popFreeSlots t) env Q E k ↔
      match (k.tasks t).freeSlots with
      | none => Q none { k with errno := .eOutOfCapSpace }
      | some s => Q (some s) (k.popped t s) := by
  obtain ⟨f, hf⟩ := h.free t hu
  cases hs : (k.tasks t).freeSlots with
  | none =>
    unfold popFreeSlots
    simp [hs]
  | some s =>
    have hsf : s ∈ f := List.mem_of_head? (hf.head ▸ hs)
    have hown := Kernel.owner_slotTask ((hf.mem s).mp hsf).1
    unfold popFreeSlots
    simp only [wp_bind, wp_get, hs, wp_eraseThis, hown, if_neg hu, wp_modify, wp_pure]
    rfl

/-- The head of a free list is an empty slot of its task. -/
theorem StoreInv.of_freeSlots (h : StoreInv k held) (hu : (k.tasks t).state ≠ .unused)
    (hs : (k.tasks t).freeSlots = some s) :
    k.owner s = some t ∧ k.cap s = .null ∧ s ∉ held := by
  obtain ⟨f, hf⟩ := h.free t hu
  exact (hf.mem s).mp (List.mem_of_head? (hf.head ▸ hs))

theorem StoreInv.popped (h : StoreInv k held) (hu : (k.tasks t).state ≠ .unused)
    (hs : (k.tasks t).freeSlots = some s) : StoreInv (k.popped t s) (insert s held) := by
  obtain ⟨f, hf⟩ := h.free t hu
  obtain ⟨f', rfl⟩ : ∃ f', f = s :: f' := by
    rw [hf.head] at hs
    cases f with
    | nil => simp at hs
    | cons z f' => exact ⟨f', by simpa using hs⟩
  obtain ⟨hown, hcap, hheld⟩ := (hf.mem s).mp List.mem_cons_self
  have hlist : k.links.IsList ([] ++ s :: f') := hf.list
  have hsf' : s ∉ f' := (List.nodup_cons.mp hf.list.nodup).1
  have hout : ∀ z, z ∉ s :: f' → (k.links.erase s).prev z = k.links.prev z ∧
      (k.links.erase s).next z = k.links.next z :=
    fun z hz => hf.list.erase_outside List.mem_cons_self hz
  have hsingle : ∀ z, z ∉ s :: f' → k.links.IsList [z] → (k.links.erase s).IsList [z] := by
    intro z hz hl
    refine hl.congr fun w hw => hout w ?_
    rw [List.mem_singleton] at hw
    exact hw ▸ hz
  refine ⟨h.links.erase s, fun z hz => ?_, fun z hz => ?_, fun p t' hp => ?_, fun t' ht' => ?_⟩
  · have hzf : z ∉ s :: f' := by
      intro hzf
      rw [Kernel.popped_owner, ((hf.mem z).mp hzf).1] at hz
      exact absurd hz (by simp)
    exact ⟨(h.outside z hz).1, hsingle z hzf (h.outside z hz).2⟩
  · rcases hz with rfl | hz
    · exact ⟨hcap, Links.erase_isolated⟩
    · exact ⟨(h.isolated z hz).1, hsingle z (hf.notMem_of_held hz) (h.isolated z hz).2⟩
  · rw [ne_eq, Kernel.popped_state]
    exact h.inUse p t' hp
  · rw [ne_eq, Kernel.popped_state] at ht'
    by_cases htt : t' = t
    · subst htt
      refine ⟨f', ?_, ?_, ?_, fun z => ?_⟩
      · exact hlist.erase
      · have hprev : k.links.prev s = none := hlist.prev_eq
        have hnext : k.links.next s = f'.head? := hlist.next_eq
        simp [Kernel.popped, hprev, hnext]
      · simp [Kernel.popped, hf.count]
      · have hmem := hf.mem z
        rw [List.mem_cons] at hmem
        rw [Kernel.popped_owner, Kernel.popped_cap, Set.mem_insert_iff, not_or]
        constructor
        · intro hz
          obtain ⟨ho, hn, hh⟩ := hmem.mp (Or.inr hz)
          exact ⟨ho, hn, fun heq => hsf' (heq ▸ hz), hh⟩
        · rintro ⟨ho, hn, hne, hh⟩
          exact (hmem.mpr ⟨ho, hn, hh⟩).resolve_left hne
    · obtain ⟨f'', hf''⟩ := h.free t' ht'
      have hz : ∀ z ∈ f'', z ∉ s :: f' := by
        intro z hz hzf
        have heq := ((hf''.mem z).mp hz).1.symm.trans ((hf.mem z).mp hzf).1
        exact htt (Option.some.inj heq)
      refine ⟨f'', hf''.congr (fun z hzf => hout z (hz z hzf)) ?_ ?_ fun z => ?_⟩
      · simp [Kernel.popped, upd_ne _ _ htt]
      · simp [Kernel.popped, upd_ne _ _ htt]
      · rw [Kernel.popped_owner, Kernel.popped_cap, Set.mem_insert_iff, not_or]
        constructor
        · rintro ⟨ho, hn, -, hh⟩
          exact ⟨ho, hn, hh⟩
        · rintro ⟨ho, hn, hh⟩
          refine ⟨ho, hn, fun heq => htt ?_, hh⟩
          rw [heq, hown] at ho
          exact (Option.some.inj ho).symm

/-- The derivation lists do not see the free lists. -/
theorem StoreInv.popped_chains (h : StoreInv k held) (hu : (k.tasks t).state ≠ .unused)
    (hs : (k.tasks t).freeSlots = some s) : (k.popped t s).chains = k.chains := by
  obtain ⟨f, hf⟩ := h.free t hu
  have hsf : s ∈ f := List.mem_of_head? (hf.head ▸ hs)
  obtain ⟨-, hcap, -⟩ := h.of_freeSlots hu hs
  have heq : (k.popped t s).chains = rewrite k.chains s [] := by
    refine chains_eq_rewrite h (by simp) (fun z hz m hm hzm _ _ => ?_) (fun z hz => ?_)
    · have hzf : z ∉ f := hf.notMem_of_cap hz
      exact ⟨hz, hf.list.erase_outside hsf hzf⟩
    · exact Or.inr ⟨hz, fun m hm _ => ⟨chains_fresh hcap m hm, by simp⟩⟩
  rw [heq, rewrite_nil (chains_fresh hcap)]

end Popped

/-! ### A capability is stored -/

section Filled

/-- A capability is put into a slot that was taken off its free list. -/
theorem StoreInv.fill (h : StoreInv k held) (hs : s ∈ held) (hc : c ≠ .null)
    (hown : k.owner s ≠ none) : StoreInv (k.setCap s c) (held \ {s}) := by
  have hcap : ∀ z, z ≠ s → (k.setCap s c).cap z = k.cap z := by
    intro z hz
    rw [Kernel.setCap_cap, upd_ne _ _ hz]
  refine ⟨by simpa using h.links, fun z hz => ?_, fun z hz => ?_, h.inUse, fun t ht => ?_⟩
  · have hne : z ≠ s := fun heq => hown (heq ▸ hz)
    rw [hcap z hne, Kernel.setCap_links]
    exact h.outside z hz
  · rw [hcap z hz.2, Kernel.setCap_links]
    exact h.isolated z hz.1
  · obtain ⟨f, hf⟩ := h.free t ht
    refine ⟨f, hf.congr (fun z _ => by simp) rfl rfl fun z => ?_⟩
    by_cases hne : z = s
    · subst hne
      simp [Kernel.setCap_cap, hc, hs]
    · rw [hcap z hne, Kernel.setCap_owner, Set.mem_sdiff, Set.mem_singleton_iff]
      simp [hne]

theorem StoreInv.fill_chains (h : StoreInv k held) (hs : s ∈ held) (hc : c ≠ .null) :
    (k.setCap s c).chains = rewrite k.chains s [s] := by
  have hcap : ∀ z, z ≠ s → (k.setCap s c).cap z = k.cap z := by
    intro z hz
    rw [Kernel.setCap_cap, upd_ne _ _ hz]
  have hfresh : Fresh k.chains s := chains_fresh (h.isolated s hs).1
  refine chains_eq_rewrite h (fun _ => ?_) (fun z hz m hm hzm hsm _ => ?_) (fun z hz => ?_)
  · rw [Kernel.setCap_links]
    refine ⟨(h.isolated s hs).2, fun z hz => ?_⟩
    rw [List.mem_singleton] at hz
    simpa [hz, Kernel.setCap_cap] using hc
  · have hne : z ≠ s := fun heq => hsm (heq ▸ hzm)
    rw [hcap z hne, Kernel.setCap_links]
    exact ⟨hz, rfl, rfl⟩
  · by_cases hne : z = s
    · simp [hne]
    · rw [hcap z hne] at hz
      exact Or.inr ⟨hz, fun m hm _ => ⟨hfresh m hm, by simpa using hfresh m hm⟩⟩

/-- A capability takes the place of another one. -/
theorem StoreInv.update (h : StoreInv k held) (hs : k.cap s ≠ .null) (hc : c ≠ .null) :
    StoreInv (k.setCap s c) held := by
  have hnull : ∀ z, (k.setCap s c).cap z = .null ↔ k.cap z = .null := by
    intro z
    rw [Kernel.setCap_cap, upd_apply]
    split
    · rename_i heq
      simp [heq, hs, hc]
    · rfl
  refine ⟨by simpa using h.links, fun z hz => ?_, fun z hz => ?_, h.inUse, fun t ht => ?_⟩
  · rw [hnull, Kernel.setCap_links]
    exact h.outside z hz
  · rw [hnull, Kernel.setCap_links]
    exact h.isolated z hz
  · obtain ⟨f, hf⟩ := h.free t ht
    exact ⟨f, hf.congr (fun z _ => by simp) rfl rfl fun z => by rw [hnull]; rfl⟩

theorem update_chains (hs : k.cap s ≠ .null) (hc : c ≠ .null) :
    (k.setCap s c).chains = k.chains := by
  unfold Kernel.chains
  ext l
  have hnull : ∀ z, (k.setCap s c).cap z ≠ .null ↔ k.cap z ≠ .null := by
    intro z
    rw [Kernel.setCap_cap, upd_apply]
    split
    · rename_i heq
      simp [heq, hs, hc]
    · rfl
  simp [hnull]

end Filled

/-! ### A slot is given back -/

/-- The links after `push_free_slots`. -/
def Kernel.freedLinks (k : Kernel) (t : TaskPtr) (s : SlotPtr) : Links SlotPtr :=
  match (k.tasks t).freeSlots with
  | some head => (k.links.erase s).insertBefore head s
  | none => k.links.erase s

/-- The state after `push_free_slots`. -/
def Kernel.freed (k : Kernel) (t : TaskPtr) (s : SlotPtr) : Kernel :=
  ((k.setLinks (k.freedLinks t s)).setCap s .null).setTask t { k.tasks t with
    freeSlots := some s
    freeSlotsCount := (k.tasks t).freeSlotsCount + 1 }

section Freed

@[simp] theorem Kernel.freed_links : (k.freed t s).links = k.freedLinks t s := by
  unfold Kernel.freed
  rw [Kernel.setTask_links, Kernel.setCap_links, Kernel.setLinks_links]

theorem Kernel.freed_cap : (k.freed t s).cap = upd k.cap s .null := by
  unfold Kernel.freed
  rw [Kernel.setTask_cap, Kernel.setCap_cap, Kernel.setLinks_cap]

@[simp] theorem Kernel.freed_owner : (k.freed t s).owner = k.owner := rfl

@[simp] theorem Kernel.freed_capSpaces : (k.freed t s).capSpaces = k.capSpaces := rfl

theorem Kernel.freed_state : ((k.freed t s).tasks t').state = (k.tasks t').state := by
  by_cases h : t' = t <;> simp [freed, upd_apply, h]

theorem wp_pushFreeSlots {Q : Unit → Kernel → Prop} (hown : k.slotTask s = some t)
    (hu : (k.tasks t).state ≠ .unused) :
    wp (pushFreeSlots t s) (.debug cfg) Q E k ↔ Q () (k.freed t s) := by
  unfold pushFreeSlots Caprese.insertBefore Kernel.freed Kernel.freedLinks
  have hiso : ∀ c, (((k.setLinks (k.links.erase s)).setCap s c).slots s).isIsolated = true := by
    intro c
    have h : (k.links.erase s).IsList [s] := Links.erase_isolated
    rw [Links.isList_singleton] at h
    simp [CapSlot.isIsolated, Kernel.setCap, Kernel.setLinks, h.1, h.2]
  simp only [wp_bind, wp_get, wp_kassert, hown, if_true, wp_eraseThis, if_neg hu, wp_modify,
    Kernel.setCap_tasks, Kernel.setLinks_tasks]
  cases hfree : (k.tasks t).freeSlots with
  | none => simp
  | some head =>
    simp [hiso, wp_checkSlotTask, hown, hu, Kernel.setLinks_setCap]
    rfl

/-- The free list of the task gets the slot, its own list loses it. -/
theorem StoreInv.freedLinks_spec (h : StoreInv k held)
    (hs : k.cap s ≠ .null ∨ s ∈ held) (hl : k.links.IsList (a ++ s :: b))
    (hf : FreeList k held t f) :
    (k.freedLinks t s).IsList (s :: f) ∧ (k.freedLinks t s).IsList (a ++ b) ∧
      (k.freedLinks t s).WellFormed ∧
      ∀ z, z ∉ a ++ s :: b → z ∉ f → (k.freedLinks t s).prev z = k.links.prev z ∧
        (k.freedLinks t s).next z = k.links.next z := by
  have hsf : s ∉ f := by
    rcases hs with hs | hs
    · exact hf.notMem_of_cap hs
    · exact hf.notMem_of_held hs
  have hdisj : ∀ z ∈ a ++ s :: b, z ∉ f := hf.disjoint hl (by simp) hsf
  have herase : ∀ z, z ∉ a ++ s :: b → (k.links.erase s).prev z = k.links.prev z ∧
      (k.links.erase s).next z = k.links.next z := fun z hz => hl.erase_outside (by simp) hz
  have hfl : (k.links.erase s).IsList f :=
    hf.list.congr fun z hz => herase z fun hz' => hdisj z hz' hz
  unfold Kernel.freedLinks
  cases f with
  | nil =>
    have hnone : (k.tasks t).freeSlots = none := hf.head
    rw [hnone]
    exact ⟨Links.erase_isolated, hl.erase, h.links.erase s, fun z hz _ => herase z hz⟩
  | cons head f =>
    have hsome : (k.tasks t).freeSlots = some head := hf.head
    rw [hsome]
    have hne : head ≠ s := fun heq => hsf (heq ▸ List.mem_cons_self)
    have hsab : s ∉ a ++ b := by
      have hnd := hl.nodup
      rw [List.nodup_middle] at hnd
      exact (List.nodup_cons.mp hnd).1
    refine ⟨hfl.insertBefore Links.erase_isolated hsf, hl.erase.congr fun z hz => ?_,
      (h.links.erase s).insertBefore ?_ Links.erase_isolated hne, fun z hz hzf => ?_⟩
    · have hzs : z ≠ s := fun heq => hsab (heq ▸ hz)
      refine hfl.insertBefore_outside (hdisj z ?_) hzs
      simp only [List.mem_append, List.mem_cons] at hz ⊢
      tauto
    · exact hfl.1
    · have hzs : z ≠ s := fun heq => hz (by simp [heq])
      obtain ⟨hp, hn⟩ := hfl.insertBefore_outside hzf hzs
      exact ⟨hp.trans (herase z hz).1, hn.trans (herase z hz).2⟩

theorem StoreInv.freed (h : StoreInv k held) (hown : k.owner s = some t)
    (hs : k.cap s ≠ .null ∨ s ∈ held) : StoreInv (k.freed t s) (held \ {s}) := by
  obtain ⟨l, hsl, hl⟩ := h.links s
  obtain ⟨a, b, rfl⟩ := List.append_of_mem hsl
  obtain ⟨f, hf⟩ := h.free t (h.inUse_of_owner hown)
  obtain ⟨hlist, hrest, hwf, hout⟩ := h.freedLinks_spec hs hl hf
  have hsf : s ∉ f := by
    rcases hs with hs | hs
    · exact hf.notMem_of_cap hs
    · exact hf.notMem_of_held hs
  have hcap : ∀ z, z ≠ s → (k.freed t s).cap z = k.cap z := by
    intro z hz
    rw [Kernel.freed_cap, upd_ne _ _ hz]
  -- A slot that was alone on its list and is not `s` still is.
  have hsingle : ∀ z, z ≠ s → z ∉ f → k.links.IsList [z] → (k.freed t s).links.IsList [z] := by
    intro z hz hzf hzl
    rw [Kernel.freed_links]
    refine hzl.congr fun w hw => ?_
    rw [List.mem_singleton] at hw
    subst hw
    refine hout w (fun hwl => ?_) hzf
    have heq := hl.eq_of_mem hzl hwl (List.mem_singleton_self w)
    rw [heq, List.mem_singleton] at hsl
    exact hz hsl.symm
  refine ⟨?_, fun z hz => ?_, fun z hz => ?_, fun p t' hp => ?_, fun t' ht' => ?_⟩
  · rw [Kernel.freed_links]
    exact hwf
  · have hne : z ≠ s := fun heq => by
      rw [heq, Kernel.freed_owner, hown] at hz
      exact absurd hz (by simp)
    have hzf : z ∉ f := fun hzf => by
      rw [Kernel.freed_owner, ((hf.mem z).mp hzf).1] at hz
      exact absurd hz (by simp)
    rw [hcap z hne]
    exact ⟨(h.outside z hz).1, hsingle z hne hzf (h.outside z hz).2⟩
  · rw [hcap z hz.2]
    exact ⟨(h.isolated z hz.1).1,
      hsingle z hz.2 (hf.notMem_of_held hz.1) (h.isolated z hz.1).2⟩
  · rw [ne_eq, Kernel.freed_state]
    exact h.inUse p t' hp
  · rw [ne_eq, Kernel.freed_state] at ht'
    by_cases htt : t' = t
    · subst htt
      refine ⟨s :: f, ?_, ?_, ?_, fun z => ?_⟩
      · rw [Kernel.freed_links]
        exact hlist
      · simp [Kernel.freed]
      · simp [Kernel.freed, hf.count]
      · by_cases hne : z = s
        · subst hne
          simp [Kernel.freed_cap, hown]
        · rw [List.mem_cons, hcap z hne, Kernel.freed_owner, Set.mem_sdiff, hf.mem]
          simp [hne]
    · obtain ⟨f', hf'⟩ := h.free t' ht'
      have hdisj : ∀ z ∈ f', z ∉ f := by
        intro z hz hzf
        have heq := ((hf'.mem z).mp hz).1.symm.trans ((hf.mem z).mp hzf).1
        exact htt (Option.some.inj heq)
      have hsf' : s ∉ f' := by
        intro hsf'
        have heq := ((hf'.mem s).mp hsf').1.symm.trans hown
        exact htt (Option.some.inj heq)
      refine ⟨f', hf'.congr (fun z hz => ?_) ?_ ?_ fun z => ?_⟩
      · rw [Kernel.freed_links]
        exact hout z (fun hzl => hf'.disjoint hl hsl hsf' z hzl hz) (hdisj z hz)
      · simp [Kernel.freed, upd_ne _ _ htt]
      · simp [Kernel.freed, upd_ne _ _ htt]
      · by_cases hne : z = s
        · subst hne
          simp [hown, Ne.symm htt]
        · rw [hcap z hne, Kernel.freed_owner, Set.mem_sdiff]
          simp [hne]

theorem StoreInv.freed_chains (h : StoreInv k held) (hown : k.owner s = some t)
    (hs : k.cap s ≠ .null) (hl : a ++ s :: b ∈ k.chains) :
    (k.freed t s).chains = rewrite k.chains s (a ++ b) := by
  obtain ⟨f, hf⟩ := h.free t (h.inUse_of_owner hown)
  obtain ⟨-, hrest, -, hout⟩ := h.freedLinks_spec (Or.inl hs) hl.2.1 hf
  have hsab : s ∉ a ++ b := by
    have hnd := hl.2.1.nodup
    rw [List.nodup_middle] at hnd
    exact (List.nodup_cons.mp hnd).1
  have hcap : ∀ z, z ≠ s → (k.freed t s).cap z = k.cap z := by
    intro z hz
    rw [Kernel.freed_cap, upd_ne _ _ hz]
  refine chains_eq_rewrite h (fun _ => ?_) (fun z hz m hm hzm hsm _ => ?_) (fun z hz => ?_)
  · rw [Kernel.freed_links]
    refine ⟨hrest, fun z hz => ?_⟩
    rw [hcap z fun heq => hsab (heq ▸ hz)]
    refine hl.2.2 z ?_
    simp only [List.mem_append, List.mem_cons] at hz ⊢
    tauto
  · rw [hcap z fun heq => hsm (heq ▸ hzm), Kernel.freed_links]
    refine ⟨hz, hout z (fun hzl => hsm ?_) (hf.notMem_of_cap hz)⟩
    rw [k.chains_valid.unique m hm _ hl z hzm hzl]
    simp
  · by_cases hne : z = s
    · simp [hne, Kernel.freed_cap] at hz
    · rw [hcap z hne] at hz
      by_cases hzl : z ∈ a ++ b
      · exact Or.inl hzl
      · refine Or.inr ⟨hz, fun m hm hzm => ?_⟩
        have hdisj : ∀ w ∈ a ++ s :: b, w ∉ m := by
          intro w hw hwm
          have heq := k.chains_valid.unique m hm _ hl w hwm hw
          rw [heq] at hzm
          simp only [List.mem_append, List.mem_cons] at hzm hzl
          tauto
        refine ⟨hdisj s (by simp), fun w hw => hdisj w ?_⟩
        simp only [List.mem_append, List.mem_cons] at hw ⊢
        tauto

/-- A slot that was only taken off its free list goes back unseen. -/
theorem StoreInv.freed_held_chains (h : StoreInv k held) (hown : k.owner s = some t)
    (hs : s ∈ held) : (k.freed t s).chains = k.chains := by
  obtain ⟨f, hf⟩ := h.free t (h.inUse_of_owner hown)
  obtain ⟨hnull, hl⟩ := h.isolated s hs
  obtain ⟨-, -, -, hout⟩ := h.freedLinks_spec (Or.inr hs) (a := []) (b := []) hl hf
  have heq : (k.freed t s).cap = k.cap := by
    rw [Kernel.freed_cap, ← hnull, upd_self]
  have hrw : (k.freed t s).chains = rewrite k.chains s [] := by
    refine chains_eq_rewrite h (by simp) (fun z hz m hm hzm hsm _ => ?_) (fun z hz => ?_)
    · rw [heq, Kernel.freed_links]
      refine ⟨hz, hout z (fun hzs => ?_) (hf.notMem_of_cap hz)⟩
      simp only [List.nil_append, List.mem_singleton] at hzs
      exact hsm (hzs ▸ hzm)
    · rw [heq] at hz
      exact Or.inr ⟨hz, fun m hm _ => ⟨chains_fresh hnull m hm, by simp⟩⟩
  rw [hrw, rewrite_nil (chains_fresh hnull)]

end Freed

end Caprese
