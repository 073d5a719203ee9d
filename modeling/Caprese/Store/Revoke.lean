import Caprese.Kernel.Revoke
import Caprese.Store.Refine

/-!
# `Caprese.Store.Revoke`: the end of capabilities

`destroy_cap_slot`, `revoke_cap` and `destroy_cap` as moves. The kernel reads off the
neighbours of a slot whether it is the last one of its object, and skips zombies on the way:
`wp_isSameObject` says what this test finds. No list ends in a zombie (`TailInv`), so the
skip comes to an end.

The loop of `revoke_cap` works from the end of the list back to the slot, so that each slot
it destroys is the last one. Its invariant is that the list is a prefix of the one that the
call started with.
-/

set_option autoImplicit false

namespace Caprese

open Lib Prog Chains

variable {cfg : Config} {k k' k₁ : Kernel} {t : TaskPtr} {x y z s e : SlotPtr}
  {a b l m : List SlotPtr} {c c' : Capability} {E : Stop → Kernel → Prop}

/-! ### Walks along a list -/

/-- The first slot that is no zombie. -/
def firstHolder (cap : SlotPtr → Capability) (l : List SlotPtr) : Option SlotPtr :=
  l.find? fun s => cap s ≠ .zombie

theorem next_eq (hl : a ++ x :: b ∈ k.chains) : (k.slots x).next = b.head? := hl.2.1.next_eq

theorem prev_eq (hl : a ++ x :: b ∈ k.chains) : (k.slots x).prev = a.getLast? := hl.2.1.prev_eq

theorem wp_skipZombies (hE : Fatal E) (hl : a ++ x :: b ∈ k.chains) {Q : SlotPtr → Kernel → Prop}
    (hQ : ∀ h, firstHolder k.cap (x :: b) = some h → Q h k) :
    wp (skipZombies x) (.debug cfg) Q E k := by
  refine wp_kloop (fun s k' => k' = k ∧ ∃ a' b', a' ++ s :: b' ∈ k.chains ∧
    firstHolder k.cap (s :: b') = firstHolder k.cap (x :: b)) ⟨rfl, a, b, hl, rfl⟩
    (fun _ => hE _ _ (by decide)) ?_
  rintro s k' ⟨hk, a', b', hl', hfirst⟩
  subst hk
  rw [wp_bind, wp_get, wp_ite]
  split
  · rename_i hz
    have hz : k'.cap s = .zombie := by
      cases hs : k'.cap s <;> simp_all [getCapType]
    rw [wp_bind, wp_get, wp_bind, wp_deref, next_eq hl']
    cases b' with
    | nil => exact hE _ _ (by decide)
    | cons n b' =>
      refine ⟨rfl, a' ++ [s], b', by simpa using hl', ?_⟩
      rw [← hfirst]
      simp [firstHolder, hz]
  · rename_i hz
    have hz : k'.cap s ≠ .zombie := fun heq => hz (by rw [heq]; rfl)
    refine hQ s ?_
    rw [← hfirst]
    simp [firstHolder, hz]

/-- The end of a list. -/
theorem wp_lastSlot (hE : Fatal E) (hl : a ++ x :: b ∈ k.chains) {Q : SlotPtr → Kernel → Prop}
    (hQ : ∀ z, (x :: b).getLast? = some z → Q z k) : wp (lastSlot x) (.debug cfg) Q E k := by
  refine wp_kloop (fun s k' => k' = k ∧ ∃ a' b', a' ++ s :: b' ∈ k.chains ∧
    (s :: b').getLast? = (x :: b).getLast?) ⟨rfl, a, b, hl, rfl⟩ (fun _ => hE _ _ (by decide)) ?_
  rintro s _ ⟨rfl, a', b', hl', hlast⟩
  rw [wp_bind, wp_get, next_eq hl']
  cases b' with
  | nil => exact hQ s (by rw [← hlast]; rfl)
  | cons n b' => exact ⟨rfl, a' ++ [s], b', by simpa using hl', by simpa using hlast⟩

/-- Whether two slots stand for one object, zombies standing for the slot behind them. -/
theorem wp_isSameObject (hE : Fatal E) {a' b' : List SlotPtr} (hx : a ++ x :: b ∈ k.chains)
    (hy : a' ++ y :: b' ∈ k.chains) {Q : Bool → Kernel → Prop}
    (hQ : ∀ u v, firstHolder k.cap (x :: b) = some u → firstHolder k.cap (y :: b') = some v →
      Q (decide (u = v) || sameObject (k.cap u) (k.cap v)) k) :
    wp (isSameObject x y) (.debug cfg) Q E k := by
  unfold isSameObject
  rw [wp_bind]
  refine wp_skipZombies hE hx fun u hu => ?_
  rw [wp_bind]
  refine wp_skipZombies hE hy fun v hv => ?_
  have hQ := hQ u v hu hv
  rw [wp_ite]
  split
  · rename_i heq
    rwa [decide_eq_true heq, Bool.true_or] at hQ
  · rename_i hne
    rwa [decide_eq_false hne, Bool.false_or] at hQ

/-! ### Slots that are given back -/

theorem erase_erase (L : Links SlotPtr) : (L.erase s).erase s = L.erase s := by
  have hlist : (L.erase s).IsList [s] := Links.erase_isolated
  obtain ⟨hprev, hnext⟩ := Links.isList_singleton.mp hlist
  ext z
  · rw [Links.erase_prev, hnext]
    by_cases hz : z = s
    · simp [hz, hprev]
    · simp [hz]
  · rw [Links.erase_next, hprev]
    by_cases hz : z = s
    · simp [hz, hnext]
    · simp [hz]

/-- `push_free_slots` takes the slot off its list once more. -/
theorem freed_erase : (k.setLinks (k.links.erase s)).freed t s = k.freed t s := by
  unfold Kernel.freed Kernel.freedLinks
  simp only [Kernel.setLinks_links, Kernel.setLinks_tasks, erase_erase]
  rfl

theorem wp_freeSlot {Q : Unit → Kernel → Prop} (h : StoreInv k ∅) (hown : k.owner s = some t)
    (hQ : Q () (k.freed t s)) : wp (freeSlot s) (.debug cfg) Q E k := by
  unfold freeSlot
  rw [wp_bind, wp_get, wp_bind, wp_deref, Kernel.owner_slotTask hown]
  show wp (pushFreeSlots t s) _ _ _ _
  rw [wp_pushFreeSlots (Kernel.owner_slotTask hown) (h.inUse_of_owner hown)]
  exact hQ

theorem wp_eraseFreeSlot {Q : Unit → Kernel → Prop} (h : StoreInv k ∅)
    (hown : k.owner s = some t) (hQ : Q () (k.freed t s)) :
    wp (eraseThis s) (.debug cfg) (fun _ k₁ => wp (freeSlot s) (.debug cfg) Q E k₁) E k := by
  rw [wp_eraseThis, Kernel.owner_slotTask hown]
  simp only [if_neg (h.inUse_of_owner hown)]
  unfold freeSlot
  rw [wp_bind, wp_get, wp_bind, wp_deref, Kernel.setLinks_slotTask, Kernel.owner_slotTask hown]
  show wp (pushFreeSlots t s) _ _ _ _
  have hown' : (k.setLinks (k.links.erase s)).slotTask s = some t := Kernel.owner_slotTask hown
  rw [wp_pushFreeSlots hown' (h.inUse_of_owner hown), freed_erase]
  exact hQ

/-- A slot with a capability is emptied. -/
theorem StoreInv.freed_store (h : StoreInv k ∅) (hown : k.owner s = some t)
    (hl : a ++ s :: b ∈ k.chains) :
    StoreInv (k.freed t s) ∅ ∧ (k.freed t s).store = k.store.clear s a b := by
  have hs : k.cap s ≠ .null := hl.2.2 s (by simp)
  refine ⟨?_, ?_⟩
  · have hfreed := h.freed hown (Or.inl hs)
    rwa [Set.empty_sdiff] at hfreed
  · have hstore : (k.freed t s).store
        = { k.store with cap := (k.freed t s).cap, chains := (k.freed t s).chains } := by
      unfold Kernel.store
      congr 1
      funext t'
      by_cases ht : t' = t <;> simp [Kernel.freed, upd_apply, ht]
    rw [hstore, Kernel.freed_cap, h.freed_chains hown hs hl]
    rfl

/-! ### Destructors -/

/-- What the destructor of the object in `s` leaves: the slot itself is still in use. -/
structure Destroyed (k : Kernel) (s : SlotPtr) (k' : Kernel) : Prop where
  inv : StoreInv k' ∅
  store : ∃ c, c ≠ .null ∧ k'.store = { k.store with
    cap := upd k.cap s c
    tables := (k.cap s).clearTables k.store.tables
    trace := k.store.trace ++ (k.cap s).destroyEvents }

/-- A destructor that gave the processor away: the task destroyed itself. -/
structure Halted (k k' : Kernel) : Prop where
  inv : StoreInv k' ∅
  store : ∃ task, k'.store = { k.store with trace := k.store.trace ++ [.destroyTask task] }

/-- Nothing but the history changed, as the destructor promised. -/
theorem Destroyed.of_trace (hinv : StoreInv k' ∅) (hs : k.cap s ≠ .null)
    (htables : (k.cap s).clearTables k.store.tables = k.store.tables)
    (hstore : k'.store = { k.store with
      trace := k.store.trace ++ (k.cap s).destroyEvents }) : Destroyed k s k' := by
  refine ⟨hinv, k.cap s, hs, ?_⟩
  rw [hstore, htables, upd_self]
  rfl

theorem StoreInv.record (h : StoreInv k ∅) (event : Event) : StoreInv (k.record event) ∅ :=
  (⟨rfl, rfl, fun _ => rfl, fun _ => rfl, fun _ => Iff.rfl⟩ :
    StoreFrame k (k.record event)).storeInv h

section Destroy

variable (hE : Fatal E)

include hE

/-- The assertion of the destructors changes nothing. -/
theorem wp_checkLast (hl : a ++ s :: b ∈ k.chains) {Q : Unit → Kernel → Prop} (hQ : Q () k) :
    wp (checkLast s) (.debug cfg) Q E k := by
  unfold checkLast
  rw [wp_bind, wp_get, next_eq hl]
  cases hb : b with
  | nil => exact hQ
  | cons n b' =>
    subst hb
    show wp (isSameObject s n >>= _) _ _ _ _
    rw [wp_bind]
    have hn : (a ++ [s]) ++ n :: b' ∈ k.chains := by simpa using hl
    refine wp_isSameObject hE hl hn fun u v _ _ => ?_
    rw [wp_kassert]
    split
    · exact hQ
    · exact hE _ _ (by decide)

theorem wp_clearEntry (h : StoreInv k ∅) {parent : Option TablePtr} {va level : Nat}
    {object : PhysAddr} {Q : Unit → Kernel → Prop}
    (hQ : ∀ k', StoreInv k' ∅ → k'.store = { k.store with
      tables := match parent with
        | some table => setEntry k.store.tables table (getPageTableIndex va level)
            (k.store.tables table (getPageTableIndex va level)).disable
        | none => k.store.tables } → Q () k') :
    wp (clearEntry parent va level object) (.debug cfg) Q E k := by
  unfold clearEntry
  cases parent with
  | none => exact hQ k h rfl
  | some table =>
    unfold pageTableWalk
    simp only [wp_bind, wp_kassert, wp_pure, wp_get, wp_modify]
    split
    · split
      · split
        · split
          · exact hQ _ (h.setPte _ _ _) rfl
          · exact hE _ _ (by decide)
        · exact hE _ _ (by decide)
      · exact hE _ _ (by decide)
    · exact hE _ _ (by decide)

theorem wp_destroyObject (h : StoreInv k ∅) (hl : a ++ s :: b ∈ k.chains)
    {Q : Unit → Kernel → Prop} (hQ : ∀ k', Destroyed k s k' → Q () k')
    (hH : ∀ k', Halted k k' → E .switched k') :
    wp (destroyObject s) (.debug cfg) Q E k := by
  have hs : k.cap s ≠ .null := hl.2.2 s (by simp)
  unfold destroyObject
  rw [wp_bind, wp_get]
  cases hc : k.cap s with
  | null => exact absurd hc hs
  -- `destroy_object` has no case for a zombie, and asserts.
  | zombie => exact hE _ _ (by decide)
  | memory m =>
    show wp (destroyMemoryObject s) _ _ _ _
    unfold destroyMemoryObject storeCap
    rw [wp_bind, wp_get, wp_bind, wp_kassert]
    split
    · rw [wp_bind]
      refine wp_memoryCap hc ?_
      rw [wp_modify]
      refine hQ _ ⟨h.update hs (by simp), .memory { m with usedSize := 0 }, by simp, ?_⟩
      rw [setCap_store hs (by simp), hc]
      simp only [Capability.clearTables, Capability.entry, Capability.destroyEvents,
        List.append_nil]
      rfl
    · exact hE _ _ (by decide)
  | task cap =>
    show wp (destroyTaskObject s) _ _ _ _
    unfold destroyTaskObject
    rw [wp_bind]
    refine wp_checkLast hE hl ?_
    rw [wp_bind]
    refine wp_readTask hE fun cap' hcap' => ?_
    obtain rfl := Capability.task.inj (hc.symm.trans hcap')
    rw [wp_bind, wp_modify]
    refine wp_mono (wp_killTask cap.task 0) (fun _ k' hk' => ?_) fun e k' hk' => ?_
    · refine hQ k' (.of_trace (hk'.storeInv (h.record _)) hs (by rw [hc]; rfl) ?_)
      rw [hk'.store, hc]
      rfl
    · by_cases he : e = .switched
      · subst he
        -- A task that destroys itself leaves the call here: the slot is still filled.
        refine hH k' ⟨hk'.storeInv (h.record _), cap.task, ?_⟩
        rw [hk'.store]
        rfl
      · exact hE e k' he
  | endpoint cap =>
    show wp (destroyEndpointObject s) _ _ _ _
    unfold destroyEndpointObject
    rw [wp_bind]
    refine wp_checkLast hE hl ?_
    rw [wp_bind]
    refine wp_readEndpoint hE fun cap' hcap' => ?_
    obtain rfl := Capability.endpoint.inj (hc.symm.trans hcap')
    rw [wp_bind, wp_modify]
    refine wp_mono ((avoids_ipcCancel cap.endpoint).wp (wp_ipcCancel cap.endpoint))
      (fun _ k' hk' => ?_) fun e k' hk' => hE e k' hk'.1
    refine hQ k' (.of_trace (hk'.storeInv (h.record _)) hs (by rw [hc]; rfl) ?_)
    rw [hk'.store, hc]
    rfl
  | pageTable cap =>
    show wp (destroyPageTableObject s) _ _ _ _
    unfold destroyPageTableObject
    rw [wp_bind]
    refine wp_checkLast hE hl ?_
    rw [wp_bind]
    refine wp_readPageTable hE fun cap' hcap' => ?_
    obtain rfl := Capability.pageTable.inj (hc.symm.trans hcap')
    refine wp_clearEntry hE h fun k' hinv hstore => hQ k' ⟨hinv, k.cap s, hs, ?_⟩
    rw [hstore, upd_self, hc]
    -- The entry in the parent table is cleared where there is one.
    cases hparent : cap.parentTable <;>
      simp [Capability.clearTables, Capability.entry, hparent, Capability.destroyEvents,
        Kernel.store]
  | virtPage cap =>
    show wp (destroyVirtPageObject s) _ _ _ _
    unfold destroyVirtPageObject
    rw [wp_bind]
    refine wp_checkLast hE hl ?_
    rw [wp_bind]
    refine wp_readVirtPage hE fun cap' hcap' => ?_
    obtain rfl := Capability.virtPage.inj (hc.symm.trans hcap')
    refine wp_clearEntry hE h fun k' hinv hstore => hQ k' ⟨hinv, k.cap s, hs, ?_⟩
    rw [hstore, upd_self, hc]
    cases hparent : cap.parentTable <;>
      simp [Capability.clearTables, Capability.entry, hparent, Capability.destroyEvents,
        Kernel.store]
  | capSpace cap =>
    show wp (destroyCapSpaceObject s) _ _ _ _
    unfold destroyCapSpaceObject
    rw [wp_bind]
    refine wp_checkLast hE hl ?_
    rw [wp_bind]
    refine wp_readCapSpace hE fun cap' hcap' => hQ k (.of_trace h hs (by rw [hc]; rfl) ?_)
    rw [hc]
    simp [Capability.destroyEvents]
  | id cap =>
    show wp (destroyIdObject s) _ _ _ _
    unfold destroyIdObject
    rw [wp_bind]
    refine wp_checkLast hE hl ?_
    rw [wp_bind]
    refine wp_readId hE fun cap' hcap' => hQ k (.of_trace h hs (by rw [hc]; rfl) ?_)
    rw [hc]
    simp [Capability.destroyEvents]

end Destroy

/-! ### `destroy_cap_slot` -/

/-- The moves that take capabilities away. -/
def Act.IsRemoval : Act → Prop
  | .remove _ => True
  | .undelegate _ => True
  | _ => False

/-- The last slot `s` of a list was emptied. The slot in front of it is a zombie that got the
capability, or keeps its own one. -/
structure Dropped (k : Kernel) (a : List SlotPtr) (s : SlotPtr) (k' : Kernel) : Prop where
  inv : StoreInv k' ∅
  move : ∃ act : Act, act.IsRemoval ∧ Trans k.store act k'.store
  null : k'.cap s = .null
  other : ∀ w, w ≠ s → a.getLast? ≠ some w ∨ k.cap w ≠ .zombie → k'.cap w = k.cap w
  chains : ∀ l, l ∈ k'.chains ↔ (l ∈ k.chains ∧ l ≠ a ++ [s]) ∨ (l = a ∧ a ≠ [])

/-- A removal that gave the processor away in the middle. -/
def Stops (k : Kernel) : Stop → Kernel → Prop := fun e k' =>
  e = .switched → ∃ acts : List Act, (∀ act ∈ acts, act.IsRemoval ∨ act = .selfDestroy) ∧
    Does k acts k'

theorem stops_fatal : Fatal (Stops k) := fun _ _ hne he => absurd he hne

theorem Halted.trans (h : Halted k k') : Trans k.store .selfDestroy k'.store := by
  obtain ⟨task, hstore⟩ := h.store
  rw [hstore]
  exact .selfDestroy

theorem Halted.stops (h : Halted k k') : Stops k .switched k' := fun _ =>
  ⟨[.selfDestroy], by simp, h.inv, .single h.trans⟩

/-- The stop of a later part of an operation. -/
theorem Stops.after {acts : List Act} (h : Does k acts k₁)
    (hacts : ∀ act ∈ acts, act.IsRemoval) {e : Stop} (h' : Stops k₁ e k') : Stops k e k' := by
  intro he
  obtain ⟨acts', hacts', hdoes⟩ := h' he
  refine ⟨acts ++ acts', fun act hact => ?_, h.append hdoes⟩
  rcases List.mem_append.mp hact with hact | hact
  · exact Or.inl (hacts act hact)
  · exact hacts' act hact

/-- The object of the last slot of a list was destroyed, and the slot is given back. -/
theorem Destroyed.freed (h : Destroyed k s k₁) (ht : k₁.owner s = some t)
    (hl : a ++ s :: b ∈ k.chains) :
    StoreInv (k₁.freed t s) ∅ ∧ (k₁.freed t s).store = { k.store.clear s a b with
      tables := (k.cap s).clearTables k.store.tables
      trace := k.store.trace ++ (k.cap s).destroyEvents } := by
  obtain ⟨c, hc, hstore⟩ := h.store
  have hl₁ : a ++ s :: b ∈ k₁.chains := by
    have hchains : k₁.chains = k.chains := congrArg CapStore.chains hstore
    rwa [hchains]
  obtain ⟨hinv, hfreed⟩ := h.inv.freed_store ht hl₁
  refine ⟨hinv, ?_⟩
  rw [hfreed, hstore]
  unfold CapStore.clear
  congr 1
  funext w
  simp only [upd_apply]
  split <;> rfl

theorem upd_upd {κ τ : Type} [DecidableEq κ] (f : κ → τ) (i : κ) (v w : τ) :
    upd (upd f i v) i w = upd f i w := by
  funext j
  simp only [upd_apply]
  split <;> rfl

theorem firstHolder_cons (h : k.cap s ≠ .zombie) (b : List SlotPtr) :
    firstHolder k.cap (s :: b) = some s := by
  simp [firstHolder, h]

/-- The slot is emptied, and the one in front of it keeps its capability. -/
theorem Dropped.of_clear (hl : a ++ [s] ∈ k.chains) (hinv : StoreInv k' ∅)
    (hmove : Trans k.store (.remove s) k'.store) (hcap : k'.cap = upd k.cap s .null)
    (hchains : k'.chains = Chains.rewrite k.chains s (a ++ [])) : Dropped k a s k' where
  inv := hinv
  move := ⟨.remove s, trivial, hmove⟩
  null := by rw [hcap, upd_same]
  other w hw _ := by rw [hcap, upd_ne _ _ hw]
  chains l := by
    rw [hchains, List.append_nil, k.chains_valid.mem_rewrite_of_subset hl (by simp)]
    intro z hz
    simp [hz]

/-- The two ways to give back a slot whose neighbour is no zombie. -/
theorem wp_dropSlot (h : StoreInv k ∅) (hl : a ++ [s] ∈ k.chains) (hn : (k.cap s).Names)
    (hp : ∀ p, a.getLast? = some p → k.cap p ≠ .zombie) {Q : Unit → Kernel → Prop}
    (hQ : ∀ k', Dropped k a s k' → Q () k') (hk₁ : k₁ = k ∧ SameNeighbor k.cap a [] (k.cap s) ∨
      Destroyed k s k₁ ∧ ¬ SameNeighbor k.cap a [] (k.cap s)) {E : Stop → Kernel → Prop} :
    wp (eraseThis s) (.debug cfg) (fun _ k₂ => wp (freeSlot s) (.debug cfg) Q E k₂) E k₁ := by
  rcases hk₁ with ⟨rfl, hsame⟩ | ⟨hd, hlast⟩
  · obtain ⟨t, ht⟩ := h.owner_of_cap hn.1
    refine wp_eraseFreeSlot h ht (hQ _ ?_)
    obtain ⟨hinv, hstore⟩ := h.freed_store ht hl
    refine .of_clear hl hinv ?_ (congrArg CapStore.cap hstore) (congrArg CapStore.chains hstore)
    rw [hstore]
    exact .drop hn hl hp hsame
  · obtain ⟨t, ht⟩ := hd.inv.owner_of_cap (s := s) (by
      obtain ⟨c, hc, hstore⟩ := hd.store
      have hcap : k₁.cap = upd k.cap s c := congrArg CapStore.cap hstore
      rwa [hcap, upd_same])
    refine wp_eraseFreeSlot hd.inv ht (hQ _ ?_)
    obtain ⟨hinv, hstore⟩ := hd.freed ht hl
    refine .of_clear hl hinv ?_ (congrArg CapStore.cap hstore) (congrArg CapStore.chains hstore)
    rw [hstore]
    exact .destroy hn hl hp hlast

/-- The zombie in front of the last slot gets its capability back. -/
theorem wp_dropZombie {p : SlotPtr} {a' : List SlotPtr} (h : StoreInv k ∅)
    (hl : (a' ++ [p]) ++ [s] ∈ k.chains) (hn : (k.cap s).Names) (hp : k.cap p = .zombie)
    {Q : Unit → Kernel → Prop} (hQ : ∀ k', Dropped k (a' ++ [p]) s k' → Q () k')
    {E : Stop → Kernel → Prop} :
    wp (eraseThis s) (.debug cfg) (fun _ k₂ => wp (freeSlot s) (.debug cfg) Q E k₂) E
      (k.setCap p (k.cap s)) := by
  have hpn : k.cap p ≠ .null := by simp [hp]
  have hps : p ≠ s := fun heq => hn.2 (heq ▸ hp)
  -- First the capability goes into `p`, then `s` is taken off and freed.
  generalize hk₁ : k.setCap p (k.cap s) = k₁
  have hinv₁ : StoreInv k₁ ∅ := hk₁ ▸ h.update hpn hn.1
  have hstore₁ : k₁.store = k.store.setCap p (k.cap s) := hk₁ ▸ setCap_store hpn hn.1
  have hl₁ : (a' ++ [p]) ++ s :: [] ∈ k₁.chains := by
    have hchains : k₁.chains = k.chains := congrArg CapStore.chains hstore₁
    rwa [hchains]
  obtain ⟨t, ht⟩ := hinv₁.owner_of_cap (hl₁.2.2 s (by simp))
  refine wp_eraseFreeSlot hinv₁ ht (hQ _ ?_)
  obtain ⟨hinv, hstore⟩ := hinv₁.freed_store ht hl₁
  have hv := k.chains_valid
  have hsub : ∀ z ∈ (a' ++ [p]) ++ [], z ∈ (a' ++ [p]) ++ [s] := fun z hz =>
    List.mem_append_left [s] (by simpa using hz)
  have hchains : Chains.rewrite k.chains s ((a' ++ [p]) ++ [])
      = Chains.rewrite k.chains p ((a' ++ [p]) ++ []) := by
    ext l
    rw [hv.mem_rewrite_of_subset hl (by simp) hsub, hv.mem_rewrite_of_subset hl (by simp) hsub]
  have hcap : (k₁.freed t s).cap = fun w => if w = p then k.cap s
      else if w ∈ ([] : List SlotPtr) ∨ w = s then .null else k.cap w := by
    have hcap₁ : k₁.cap = upd k.cap p (k.cap s) := congrArg CapStore.cap hstore₁
    rw [Kernel.freed_cap, hcap₁]
    funext w
    simp only [upd_apply, List.not_mem_nil, false_or]
    by_cases hws : w = s
    · simp [hws, Ne.symm hps]
    · simp [hws]
  -- Together the stores are the move that takes the delegation from `p` to `s` back.
  have hmove : Trans k.store (.undelegate p) (k₁.freed t s).store := by
    have hT : (k₁.freed t s).store = { k.store with
        cap := fun w => if w = p then k.cap s
          else if w ∈ ([] : List SlotPtr) ∨ w = s then .null else k.cap w
        chains := Chains.rewrite k.chains p (a' ++ p :: []) } := by
      have hcap' : ((k.store.setCap p (k.cap s)).clear s (a' ++ [p]) []).cap
          = fun w => if w = p then k.cap s
            else if w ∈ ([] : List SlotPtr) ∨ w = s then .null else k.cap w := by
        rw [← hstore₁, ← hstore]
        exact hcap
      rw [List.append_nil] at hchains
      rw [hstore, hstore₁, ← hcap', ← hchains]
      unfold CapStore.clear
      rw [List.append_nil]
      rfl
    rw [hT]
    refine .undelegate (m := []) hp (by simp) hn ?_
    show a' ++ p :: ([] ++ s :: []) ∈ k.chains
    simpa using hl
  refine ⟨hinv, ⟨.undelegate p, trivial, hmove⟩, ?_, fun w hw hne => ?_, fun l => ?_⟩
  · rw [hcap]
    simp [Ne.symm hps]
  · have hwp : w ≠ p := by
      rintro rfl
      rcases hne with hne | hne
      · exact hne (by simp)
      · exact hne hp
    rw [hcap]
    simp [hw, hwp]
  · have hfinal : (k₁.freed t s).chains = Chains.rewrite k₁.chains s ((a' ++ [p]) ++ []) :=
      congrArg CapStore.chains hstore
    have hchains₁ : k₁.chains = k.chains := congrArg CapStore.chains hstore₁
    rw [hfinal, hchains₁, hv.mem_rewrite_of_subset hl (by simp) hsub, List.append_nil]

theorem wp_destroyCapSlot (h : StoreInv k ∅) (hT : TailInv k.store) (hl : a ++ [s] ∈ k.chains)
    {Q : Unit → Kernel → Prop} (hQ : ∀ k', Dropped k a s k' → Q () k') :
    wp (destroyCapSlot s) (.debug cfg) Q (Stops k) k := by
  have hn : (k.cap s).Names := ⟨hl.2.2 s (by simp), hT _ hl s (by simp)⟩
  have htail : (k.slots s).isTail = true := by
    have hnext : (k.slots s).next = none := next_eq hl
    simp [CapSlot.isTail, hnext]
  obtain ⟨t, ht⟩ := h.owner_of_cap hn.1
  have hE : ∀ k', Halted k k' → Stops k .switched k' := fun k' hk' => hk'.stops
  unfold destroyCapSlot
  rw [wp_bind, wp_get, wp_bind, wp_kassert, if_pos htail, wp_bind, wp_checkSlotTask,
    Kernel.owner_slotTask ht]
  simp only [if_neg (h.inUse_of_owner ht)]
  rw [wp_bind, wp_get, prev_eq hl]
  -- Alone on its list the slot is the last of its object; else the slot in front decides.
  cases ha : a.getLast? with
  | none =>
    show wp (destroyObject s >>= _) _ _ _ _
    rw [wp_bind]
    refine wp_destroyObject stops_fatal h hl (fun k₁ hk₁ => ?_) hE
    rw [wp_bind]
    refine wp_dropSlot h hl hn (by simp [ha]) hQ (Or.inr ⟨hk₁, ?_⟩)
    simp [SameNeighbor, ha]
  | some p =>
    obtain ⟨a', rfl⟩ := List.getLast?_eq_some_iff.mp ha
    simp only [wp_bind, wp_get, wp_ite]
    split
    · rename_i hz
      have hp : k.cap p = .zombie := by
        cases hp : k.cap p <;> simp_all [getCapType]
      rw [wp_modify]
      exact wp_dropZombie h hl hn hp hQ
    · rename_i hz
      have hp : k.cap p ≠ .zombie := fun heq => hz (by rw [heq]; rfl)
      have hp' : ∀ q, (a' ++ [p]).getLast? = some q → k.cap q ≠ .zombie := by
        intro q hq
        obtain rfl : p = q := by simpa using hq
        exact hp
      have hpl : a' ++ p :: [s] ∈ k.chains := by simpa using hl
      have hps : p ≠ s := fun heq => (h.storeOk.nodup hl).1 (by simp [heq])
      -- Neither is a zombie, so the comparison does not look behind them.
      refine wp_isSameObject stops_fatal hpl hl fun u v hu hv => ?_
      rw [firstHolder_cons hp] at hu
      rw [firstHolder_cons hn.2] at hv
      obtain rfl := Option.some.inj hu
      obtain rfl := Option.some.inj hv
      have hiff : SameNeighbor k.cap (a' ++ [p]) [] (k.cap s) ↔
          sameObject (k.cap p) (k.cap s) = true := by
        simp [SameNeighbor]
      rw [decide_eq_false hps, Bool.false_or]
      split
      · rename_i hdiff
        refine wp_destroyObject stops_fatal h hl (fun k₁ hk₁ => ?_) hE
        refine wp_dropSlot h hl hn hp' hQ (Or.inr ⟨hk₁, ?_⟩)
        rw [hiff]
        simpa using hdiff
      · rename_i hsame
        refine wp_dropSlot h hl hn hp' hQ (Or.inl ⟨rfl, ?_⟩)
        rw [hiff]
        simpa using hsame

/-! ### `revoke_cap` of memory -/

/-- In the middle of `revoke_cap`: of the slots `b` behind `x` the first ones, `m`, are left. -/
structure Revoking (k : Kernel) (a : List SlotPtr) (x : SlotPtr) (b m : List SlotPtr)
    (k' : Kernel) : Prop where
  inv : StoreInv k' ∅
  moves : ∃ acts : List Act, (∀ act ∈ acts, act.IsRemoval) ∧ Moves k.store acts k'.store
  left : m <+: b
  null : ∀ w ∈ b, w ∉ m → k'.cap w = .null
  other : ∀ w, w ∉ b → k'.cap w = k.cap w
  chains : ∀ l, l ∈ k'.chains ↔ (l ∈ k.chains ∧ l ≠ a ++ x :: b) ∨ l = a ++ x :: m

theorem Revoking.start (h : StoreInv k ∅) (hl : a ++ x :: b ∈ k.chains) :
    Revoking k a x b b k where
  inv := h
  moves := ⟨[], by simp, .nil⟩
  left := List.prefix_refl b
  null w hw hw' := absurd hw hw'
  other _ _ := rfl
  chains l := by
    constructor
    · intro hl'
      by_cases heq : l = a ++ x :: b
      · exact Or.inr heq
      · exact Or.inl ⟨hl', heq⟩
    · rintro (⟨hl', -⟩ | rfl)
      · exact hl'
      · exact hl

/-- One turn of the loop. -/
theorem Revoking.step (h : Revoking k a x b (m ++ [s]) k₁) (hl : a ++ x :: b ∈ k.chains)
    (hx : k.cap x ≠ .zombie) (hxb : x ∉ b) (hd : Dropped k₁ (a ++ x :: m) s k') :
    Revoking k a x b m k' := by
  have hsb : s ∈ b := h.left.subset (by simp)
  have hcons : (a ++ x :: m) ++ [s] = a ++ x :: (m ++ [s]) := by simp
  refine ⟨hd.inv, ?_, (List.prefix_append m [s]).trans h.left, fun w hw hwm => ?_, fun w hw => ?_,
    fun l => ?_⟩
  · obtain ⟨acts, hacts, hmoves⟩ := h.moves
    obtain ⟨act, hact, hmove⟩ := hd.move
    refine ⟨acts ++ [act], fun act' hact' => ?_, hmoves.snoc hmove⟩
    rcases List.mem_append.mp hact' with hact' | hact'
    · exact hacts act' hact'
    · rw [List.mem_singleton.mp hact']
      exact hact
  · by_cases hws : w = s
    · rw [hws]
      exact hd.null
    -- The slot was emptied in an earlier turn, and stays empty.
    · have hnull : k₁.cap w = .null := h.null w hw (by simp [hwm, hws])
      rw [hd.other w hws (Or.inr (by simp [hnull])), hnull]
  · have hws : w ≠ s := fun heq => hw (heq ▸ hsb)
    refine (hd.other w hws ?_).trans (h.other w hw)
    by_cases hwx : w = x
    · refine Or.inr ?_
      rw [hwx, h.other x hxb]
      exact hx
    -- Only the slot in front of `s` can get a capability back, and it is `x` or in `b`.
    · refine Or.inl fun hlast => ?_
      rcases getLast?_split.mp hlast with ⟨-, heq⟩ | hlast
      · exact hwx heq.symm
      · exact hw (h.left.subset (List.mem_append_left [s] (List.mem_of_getLast? hlast)))
  · rw [hd.chains, h.chains, hcons]
    constructor
    · rintro (⟨hl' | hl', hne⟩ | ⟨rfl, -⟩)
      · exact Or.inl hl'
      · exact absurd hl' hne
      · exact Or.inr rfl
    · rintro (⟨hl', hne⟩ | rfl)
      · refine Or.inl ⟨Or.inl ⟨hl', hne⟩, ?_⟩
        rintro rfl
        exact hne (k.chains_valid.unique _ hl' _ hl x (by simp) (by simp))
      · exact Or.inr ⟨rfl, by simp⟩

/-- What `revoke_cap` of a memory capability in `x` leaves. -/
def Revoked (k : Kernel) (x : SlotPtr) (k' : Kernel) : Prop :=
  ∃ a b, a ++ x :: b ∈ k.chains ∧ Revoking k a x b [] k'

/-- One turn of the loop, at the slot `s`. -/
theorem wp_revokeTurn (h : StoreInv k ∅) (hT : TailInv k.store) (hl : a ++ x :: b ∈ k.chains)
    (hx : k.cap x ≠ .zombie) (hxb : x ∉ b) (hk₁ : Revoking k a x b m k₁)
    (hs : (x :: m).getLast? = some s) :
    wp (do
        if s = x then return .inr ()
        else
          let prevSlot := ((← get).slots s).prev
          destroyCapSlot s
          return .inl (← deref prevSlot)) (.debug cfg)
      (fun (c : SlotPtr ⊕ Unit) k₂ => match c with
        | .inl s' => ∃ m, Revoking k a x b m k₂ ∧ (x :: m).getLast? = some s'
        | .inr _ => Revoking k a x b [] k₂) (Stops k) k₁ := by
  rw [wp_ite]
  split
  · rename_i hsx
    subst hsx
    -- The loop is back at `x`, so no slot is left behind it.
    have hm : m = [] := by
      rcases (getLast?_split (a := [])).mp hs with ⟨hm, -⟩ | hm
      · exact hm
      · exact absurd (hk₁.left.subset (List.mem_of_getLast? hm)) hxb
    exact hm ▸ hk₁
  · rename_i hsx
    -- The last slot is destroyed, and the one in front of it is the next turn's.
    have hm : m.getLast? = some s := by
      rcases (getLast?_split (a := [])).mp hs with ⟨-, heq⟩ | hm
      · exact absurd heq.symm hsx
      · exact hm
    obtain ⟨m', rfl⟩ := List.getLast?_eq_some_iff.mp hm
    have hlist : (a ++ x :: m') ++ [s] ∈ k₁.chains := by
      rw [hk₁.chains]
      exact Or.inr (by simp)
    obtain ⟨acts, hacts, hmoves⟩ := hk₁.moves
    have hT₁ : TailInv k₁.store := hT.moves h.storeOk hmoves
    rw [wp_bind, wp_get, wp_bind, prev_eq hlist]
    refine wp_mono (wp_destroyCapSlot hk₁.inv hT₁ hlist
      (Q := fun _ k₂ => Dropped k₁ (a ++ x :: m') s k₂) fun _ h => h)
      (fun _ k₂ hk₂ => ?_) fun e k₂ he => he.after ⟨hk₁.inv, hmoves⟩ hacts
    have hstep := hk₁.step hl hx hxb hk₂
    rw [wp_bind, wp_deref]
    cases hp : (a ++ x :: m').getLast? with
    | none => exact stops_fatal _ _ (by decide)
    | some p =>
      refine ⟨m', hstep, ?_⟩
      rw [List.getLast?_append, List.getLast?_cons, Option.some_or] at hp
      rw [List.getLast?_cons]
      exact hp

theorem wp_revokeMemory (h : StoreInv k ∅) (hT : TailInv k.store) (hl : a ++ x :: b ∈ k.chains)
    (hx : k.cap x ≠ .zombie) {Q : Unit → Kernel → Prop} (hQ : ∀ k', Revoked k x k' → Q () k') :
    wp (lastSlot x >>= backTo x destroyCapSlot) (.debug cfg) Q (Stops k) k := by
  have hxb : x ∉ b := (h.storeOk.nodup hl).2.1
  rw [wp_bind]
  refine wp_lastSlot stops_fatal hl fun z hz => ?_
  refine wp_kloop (fun s k₁ => ∃ m, Revoking k a x b m k₁ ∧ (x :: m).getLast? = some s)
    ⟨b, .start h hl, hz⟩ (fun _ => stops_fatal _ _ (by decide)) ?_
  rintro s k₁ ⟨m, hk₁, hs⟩
  refine wp_mono (wp_revokeTurn h hT hl hx hxb hk₁ hs) (fun c k₂ hc => ?_) fun _ _ he => he
  cases c with
  | inl s' => exact hc
  | inr _ => exact hQ k₂ ⟨a, b, hl, hc⟩

/-! ### `revoke_cap` of a zombie -/

/-- The holder that a zombie leads to. -/
theorem firstHolder_split {cap : SlotPtr → Capability} {l : List SlotPtr}
    (h : firstHolder cap l = some e) :
    ∃ m b, l = m ++ e :: b ∧ (∀ s ∈ m, cap s = .zombie) ∧ cap e ≠ .zombie := by
  obtain ⟨he, m, b, hl, hm⟩ := List.find?_eq_some_iff_append.mp h
  exact ⟨m, b, hl, fun s hs => by simpa using hm s hs, by simpa using he⟩

/-- In the middle of `revoke_cap` of the zombie `z`: of the slots up to the holder the first
ones, `m`, are left, and `gone` are empty. -/
structure Retaking (k : Kernel) (a : List SlotPtr) (z : SlotPtr) (m gone b : List SlotPtr)
    (k' : Kernel) : Prop where
  inv : StoreInv k' ∅
  store : k'.store = { k.store with
    cap := fun w => if w ∈ gone then .null else k.cap w
    chains := Chains.rewrite k.chains z (a ++ z :: (m ++ b)) }

theorem Retaking.start (h : StoreInv k ∅) (hl : a ++ z :: (m ++ b) ∈ k.chains) :
    Retaking k a z m [] b k := by
  refine ⟨h, ?_⟩
  have hsame : Chains.rewrite k.chains z (a ++ z :: (m ++ b)) = k.chains := by
    ext l
    rw [k.chains_valid.mem_rewrite_of_subset hl (by simp) fun _ h => h]
    constructor
    · rintro (⟨hl', -⟩ | ⟨rfl, -⟩)
      · exact hl'
      · exact hl
    · intro hl'
      by_cases heq : l = a ++ z :: (m ++ b)
      · exact Or.inr ⟨heq, by simp⟩
      · exact Or.inl ⟨hl', heq⟩
  rw [hsame]
  simp only [List.not_mem_nil, if_false]
  rfl

theorem Retaking.step {gone : List SlotPtr} (h : Retaking k a z (m ++ [s]) gone b k₁)
    (hl : a ++ z :: (m ++ s :: (gone ++ b)) ∈ k.chains) (ht : k₁.owner s = some t) :
    Retaking k a z m (s :: gone) b (k₁.freed t s) := by
  have hlist : (a ++ z :: m) ++ s :: b ∈ k₁.chains := by
    have hchains : k₁.chains = _ := congrArg CapStore.chains h.store
    rw [hchains]
    refine Or.inr ⟨by simp, by simp⟩
  obtain ⟨hinv, hstore⟩ := h.inv.freed_store ht hlist
  have hnew : ∀ w ∈ a ++ z :: (m ++ b), w ∈ a ++ z :: (m ++ s :: (gone ++ b)) := by
    intro w hw
    simp only [List.mem_append, List.mem_cons] at hw ⊢
    tauto
  have hchains : Chains.rewrite (Chains.rewrite k.chains z (a ++ z :: ((m ++ [s]) ++ b))) s
      (a ++ z :: (m ++ b)) = Chains.rewrite k.chains z (a ++ z :: (m ++ b)) := by
    rw [rewrite_rewrite (by simp)]
    · ext l
      rw [k.chains_valid.mem_rewrite_of_subset hl (by simp) hnew,
        k.chains_valid.mem_rewrite_of_subset hl (by simp) hnew]
    · intro w hw
      simp only [List.mem_append, List.mem_cons, List.not_mem_nil, or_false] at hw ⊢
      tauto
  refine ⟨hinv, ?_⟩
  rw [hstore, h.store, ← hchains]
  unfold CapStore.clear
  have hassoc : a ++ z :: m ++ b = a ++ z :: (m ++ b) := by simp
  rw [hassoc]
  congr 1
  funext w
  simp only [upd_apply, List.mem_cons]
  by_cases hw : w = s <;> simp [hw]

theorem Retaking.finish (h : Retaking k a z [] (m ++ [e]) b k₁)
    (hl : a ++ z :: (m ++ e :: b) ∈ k.chains) (hz : k.cap z = .zombie)
    (hm : ∀ s ∈ m, k.cap s = .zombie) (he : k.cap e ≠ .zombie) :
    StoreInv (k₁.setCap z (k.cap e)) ∅ ∧
      Trans k.store (.undelegate z) (k₁.setCap z (k.cap e)).store := by
  have hen : k.cap e ≠ .null := hl.2.2 e (by simp)
  have hzl : z ∉ m ++ [e] := by
    have hnd := hl.2.1.nodup
    rw [List.nodup_middle, List.nodup_cons] at hnd
    simp only [List.mem_append, List.mem_cons, not_or, List.not_mem_nil] at hnd ⊢
    tauto
  have hcap : k₁.cap = fun w => if w ∈ m ++ [e] then .null else k.cap w :=
    congrArg CapStore.cap h.store
  have hzn : k₁.cap z ≠ .null := by
    rw [hcap]
    simp only [if_neg hzl]
    simp [hz]
  refine ⟨h.inv.update hzn hen, ?_⟩
  rw [setCap_store hzn hen, h.store]
  have hT := Trans.undelegate (S := k.store) hz hm ⟨hen, he⟩ hl
  refine cast (congrArg _ ?_) hT
  unfold CapStore.setCap
  congr 1
  funext w
  simp only [upd_apply, List.mem_append, List.mem_singleton]
  rfl

theorem wp_revokeZombie (h : StoreInv k ∅) (hl : a ++ z :: (m ++ e :: b) ∈ k.chains)
    (hz : k.cap z = .zombie) (hm : ∀ s ∈ m, k.cap s = .zombie) (he : k.cap e ≠ .zombie)
    (hE : Fatal E) {Q : Unit → Kernel → Prop}
    (hQ : ∀ k', StoreInv k' ∅ → Trans k.store (.undelegate z) k'.store →
      k'.cap z = k.cap e → Q () k') :
    wp (backTo z (fun s => do
        let _ ← eraseThis s
        freeSlot s) e) (.debug cfg)
      (fun _ k₁ => wp (storeCap z (k.cap e)) (.debug cfg) Q E k₁) E k := by
  have hzl : z ∉ m ++ [e] := by
    have hnd := hl.2.1.nodup
    rw [List.nodup_middle, List.nodup_cons] at hnd
    simp only [List.mem_append, List.mem_cons, not_or, List.not_mem_nil] at hnd ⊢
    tauto
  have hl' : a ++ z :: ((m ++ [e]) ++ b) ∈ k.chains := by simpa using hl
  -- The loop walks from `e` back to `z`: the slots `gone` are freed, `m₁` are left.
  refine wp_kloop (fun s k₁ => ∃ m₁ gone, m ++ [e] = m₁ ++ gone ∧ Retaking k a z m₁ gone b k₁ ∧
    (z :: m₁).getLast? = some s)
    ⟨m ++ [e], [], by simp, .start h hl', by simp [List.getLast?_cons]⟩
    (fun _ => hE _ _ (by decide)) ?_
  rintro s k₁ ⟨m₁, gone, hsplit, hk₁, hs⟩
  rw [wp_ite]
  split
  · rename_i hsz
    subst hsz
    have hm₁ : m₁ = [] := by
      rcases (getLast?_split (a := [])).mp hs with ⟨hm₁, -⟩ | hm₁
      · exact hm₁
      · exact absurd (hsplit ▸ List.mem_append_left gone (List.mem_of_getLast? hm₁)) hzl
    subst hm₁
    rw [List.nil_append] at hsplit
    rw [← hsplit] at hk₁
    -- All of them are freed. The store to `z` makes the move complete.
    obtain ⟨hinv, hmove⟩ := hk₁.finish hl hz hm he
    refine hQ _ hinv hmove ?_
    rw [Kernel.setCap_cap, upd_same]
  · rename_i hsz
    have hm₁ : m₁.getLast? = some s := by
      rcases (getLast?_split (a := [])).mp hs with ⟨-, heq⟩ | hm₁
      · exact absurd heq.symm hsz
      · exact hm₁
    obtain ⟨m', rfl⟩ := List.getLast?_eq_some_iff.mp hm₁
    have hlist : (a ++ z :: m') ++ s :: b ∈ k₁.chains := by
      have hchains : k₁.chains = _ := congrArg CapStore.chains hk₁.store
      rw [hchains]
      exact Or.inr ⟨by simp, by simp⟩
    have hsl : a ++ z :: (m' ++ s :: (gone ++ b)) ∈ k.chains := by
      rw [hsplit] at hl'
      simpa using hl'
    obtain ⟨t, ht⟩ := hk₁.inv.owner_of_cap (hlist.2.2 s (by simp))
    rw [wp_bind, wp_get, wp_bind, prev_eq hlist, wp_bind]
    refine wp_eraseFreeSlot hk₁.inv ht ?_
    have hstep := hk₁.step hsl ht
    rw [wp_bind, wp_deref]
    cases hp : (a ++ z :: m').getLast? with
    | none => exact hE _ _ (by decide)
    | some p =>
      refine ⟨m', s :: gone, by rw [hsplit]; simp, hstep, ?_⟩
      rw [List.getLast?_append, List.getLast?_cons, Option.some_or] at hp
      rw [List.getLast?_cons]
      exact hp

/-- The operation took capabilities away, and did nothing else. -/
def Removes (k : Kernel) (k' : Kernel) : Prop :=
  ∃ acts : List Act, (∀ act ∈ acts, act.IsRemoval) ∧ Does k acts k'

theorem Removes.trans (h : Removes k k₁) (h' : Removes k₁ k') : Removes k k' := by
  obtain ⟨acts, hacts, hdoes⟩ := h
  obtain ⟨acts', hacts', hdoes'⟩ := h'
  refine ⟨acts ++ acts', fun act hact => ?_, hdoes.append hdoes'⟩
  rcases List.mem_append.mp hact with hact | hact
  · exact hacts act hact
  · exact hacts' act hact

/-! ### `revoke_cap` -/

/-- What `revoke_cap` did, by its answer. -/
inductive Revokes (k : Kernel) (x : SlotPtr) : Bool → Kernel → Prop
  | failed {k' : Kernel} (does : Does k [] k') : Revokes k x false k'
  | memory {k' : Kernel} {m : MemoryCap} (holds : k.cap x = .memory m) (revoked : Revoked k x k') :
      Revokes k x true k'
  | zombie {k' : Kernel} (holds : k.cap x = .zombie) (inv : StoreInv k' ∅)
      (names : (k'.cap x).Names) (move : Trans k.store (.undelegate x) k'.store) :
      Revokes k x true k'

theorem Revokes.removes {b : Bool} (h : Revokes k x b k') : Removes k k' := by
  cases h with
  | failed hdoes => exact ⟨[], by simp, hdoes⟩
  | memory _ hrevoked =>
    obtain ⟨a, b, _, hrev⟩ := hrevoked
    obtain ⟨acts, hacts, hmoves⟩ := hrev.moves
    exact ⟨acts, hacts, hrev.inv, hmoves⟩
  | zombie _ hinv _ hmove => exact ⟨[.undelegate x], by simp [Act.IsRemoval], hinv, .single hmove⟩

/-- A revocation that did not fail leaves a capability. -/
theorem Revokes.names (h : Revokes k x true k') : (k'.cap x).Names := by
  cases h with
  | memory hm hrevoked =>
    obtain ⟨a, b, hl, hrev⟩ := hrevoked
    have hxb : x ∉ b := by
      have hnd := hl.2.1.nodup
      rw [List.nodup_middle, List.nodup_cons] at hnd
      exact fun hx => hnd.1 (List.mem_append_right a hx)
    rw [hrev.other x hxb, hm]
    exact ⟨by simp, by simp⟩
  | zombie _ _ hnames _ => exact hnames

theorem wp_revokeCap (h : StoreInv k ∅) (hT : TailInv k.store) :
    wp (revokeCap x) (.debug cfg) (Revokes k x) (Stops k) k := by
  unfold revokeCap
  rw [wp_bind, wp_get, wp_ite]
  split
  · exact .failed (does_errno h _)
  · rename_i htype
    have hnull : k.cap x ≠ .null := by
      intro heq
      simp [heq, getCapType] at htype
    obtain ⟨t, ht⟩ := h.owner_of_cap hnull
    obtain ⟨a, b, hl⟩ := h.exists_chain hnull
    rw [wp_bind, wp_checkSlotTask, Kernel.owner_slotTask ht]
    simp only [if_neg (h.inUse_of_owner ht)]
    rw [wp_ite]
    split
    · rename_i hmem
      obtain ⟨m, hm⟩ : ∃ m, k.cap x = .memory m := by
        cases hc : k.cap x <;> simp_all [getCapType]
      have hrevoke := @wp_revokeMemory cfg _ _ _ _ h hT hl (by simp [hm])
        (fun _ k' => Revokes k x true k') fun k' hk' => .memory hm hk'
      simp only [wp_bind, wp_pure] at hrevoke ⊢
      exact hrevoke
    · rename_i hmem
      have hz : k.cap x = .zombie := by
        cases hc : k.cap x <;> simp_all [getCapType]
      rw [wp_bind, wp_get, wp_bind, wp_deref, next_eq hl]
      -- A zombie is never the last of its list, but the code asks for the next slot anyway.
      cases hb : b with
      | nil => exact stops_fatal _ _ (by decide)
      | cons n b' =>
        subst hb
        have hn : (a ++ [x]) ++ n :: b' ∈ k.chains := by simpa using hl
        show wp (skipZombies n >>= _) _ _ _ _
        rw [wp_bind]
        refine wp_skipZombies stops_fatal hn fun e he => ?_
        -- The zombies behind `x` are skipped, up to the slot that holds the capability.
        obtain ⟨m, b, hsplit, hm, hne⟩ := firstHolder_split he
        rw [hsplit] at hl
        have hen : k.cap e ≠ .null := hl.2.2 e (by simp)
        simp only [wp_bind, wp_get, wp_pure]
        refine wp_revokeZombie h hl hz hm hne stops_fatal fun k' hinv hmove hcap => ?_
        exact .zombie hz hinv (hcap ▸ ⟨hen, hne⟩) hmove

/-! ### `destroy_cap` -/

/-- The slot in front: a zombie there stands for this very slot. -/
theorem wp_isSamePrev (hE : Fatal E) (hl : a ++ x :: b ∈ k.chains) (hx : k.cap x ≠ .zombie)
    {Q : Bool → Kernel → Prop} (hQ : ∀ r, (r = true ↔ ∃ p, a.getLast? = some p ∧
      (k.cap p = .zombie ∨ sameObject (k.cap p) (k.cap x) = true)) → Q r k) :
    wp (isSameNeighbor a.getLast? x) (.debug cfg) Q E k := by
  unfold isSameNeighbor
  cases ha : a.getLast? with
  | none => exact hQ false (by simp [ha])
  | some p =>
    obtain ⟨a', rfl⟩ := List.getLast?_eq_some_iff.mp ha
    have hp : a' ++ p :: x :: b ∈ k.chains := by simpa using hl
    refine wp_isSameObject hE hp hl fun u v hu hv => hQ _ ?_
    rw [firstHolder_cons hx] at hv
    obtain rfl := Option.some.inj hv
    by_cases hz : k.cap p = .zombie
    · have hux : x = u := by
        have hu' : firstHolder k.cap (p :: x :: b) = some x := by simp [firstHolder, hz, hx]
        exact Option.some.inj (hu'.symm.trans hu)
      simp [hux, hz]
    · rw [firstHolder_cons hz] at hu
      obtain rfl := Option.some.inj hu
      have hpx : p ≠ x := by
        have hnd := hp.2.1.nodup
        rw [List.nodup_append, List.nodup_cons] at hnd
        exact fun heq => hnd.2.1.1 (by simp [heq])
      simp [hpx, hz]

/-- The slots behind. -/
theorem wp_isSameNext (hE : Fatal E) (hl : a ++ x :: b ∈ k.chains) (hx : k.cap x ≠ .zombie)
    {Q : Bool → Kernel → Prop} (hQ : ∀ r, (r = true ↔ ∃ n, firstHolder k.cap b = some n ∧
      sameObject (k.cap n) (k.cap x) = true) → Q r k) :
    wp (isSameNeighbor b.head? x) (.debug cfg) Q E k := by
  unfold isSameNeighbor
  cases b with
  | nil => exact hQ false (by simp [firstHolder])
  | cons n b' =>
    have hn : (a ++ [x]) ++ n :: b' ∈ k.chains := by simpa using hl
    refine wp_isSameObject hE hn hl fun u v hu hv => hQ _ ?_
    rw [firstHolder_cons hx] at hv
    obtain rfl := Option.some.inj hv
    have hux : u ≠ x := by
      rintro rfl
      have hnd := hl.2.1.nodup
      rw [List.nodup_middle, List.nodup_cons] at hnd
      exact hnd.1 (List.mem_append_right a (List.mem_of_find?_eq_some hu))
    simp [hux, hu]

/-- A zombie in front counts as a slot of the same object. -/
theorem wp_hasSameNeighbor (hE : Fatal E) (hl : a ++ x :: b ∈ k.chains) (hx : k.cap x ≠ .zombie)
    {Q : Bool → Kernel → Prop} (hQ : ∀ same, (same = true ↔
      (∃ p, a.getLast? = some p ∧ k.cap p = .zombie) ∨ SameNeighbor k.cap a b (k.cap x)) →
      Q same k) : wp (hasSameNeighbor x) (.debug cfg) Q E k := by
  unfold hasSameNeighbor
  rw [wp_bind, wp_get, prev_eq hl, wp_bind]
  refine wp_isSamePrev hE hl hx fun samePrev hprev => ?_
  rw [wp_ite]
  split
  · rename_i hsame
    refine hQ true (iff_of_true rfl ?_)
    obtain ⟨p, hp, hz | hs⟩ := hprev.mp hsame
    · exact Or.inl ⟨p, hp, hz⟩
    · exact Or.inr (Or.inl ⟨p, hp, hs⟩)
  · rename_i hdiff
    rw [wp_bind, wp_get, next_eq hl]
    refine wp_isSameNext hE hl hx fun sameNext hnext => hQ sameNext ?_
    rw [hnext]
    constructor
    · rintro ⟨n, hn, hs⟩
      exact Or.inr (Or.inr ⟨n, hn, hs⟩)
    · rintro (⟨p, hp, hz⟩ | ⟨p, hp, hs⟩ | hn)
      · exact absurd (hprev.mpr ⟨p, hp, Or.inl hz⟩) hdiff
      · exact absurd (hprev.mpr ⟨p, hp, Or.inr hs⟩) hdiff
      · exact hn

theorem wp_destroyRevoked (h : StoreInv k ∅) (hT : TailInv k.store) (hn : (k.cap x).Names) :
    wp (destroyRevoked x) (.debug cfg) (fun _ k' => Removes k k') (Stops k) k := by
  obtain ⟨a, b, hl⟩ := h.exists_chain hn.1
  unfold destroyRevoked
  rw [wp_bind]
  refine wp_hasSameNeighbor stops_fatal hl hn.2 fun same hsame => ?_
  rw [wp_ite]
  split
  · rename_i hdiff
    have hdiff : ¬ same = true := by simpa using hdiff
    rw [hsame, not_or] at hdiff
    rw [wp_bind]
    refine wp_destroyObject stops_fatal h hl (fun k₁ hk₁ => ?_) fun k' hk' => hk'.stops
    obtain ⟨t, ht⟩ := hk₁.inv.owner_of_cap (s := x) (by
      obtain ⟨c, hc, hstore⟩ := hk₁.store
      have hcap : k₁.cap = upd k.cap x c := congrArg CapStore.cap hstore
      rwa [hcap, upd_same])
    rw [wp_bind]
    refine wp_freeSlot hk₁.inv ht ?_
    obtain ⟨hinv, hstore⟩ := hk₁.freed ht hl
    refine ⟨[.remove x], by simp [Act.IsRemoval], hinv, ?_⟩
    rw [hstore]
    exact .single (.destroy hn hl (fun p hp hz => hdiff.1 ⟨p, hp, hz⟩) hdiff.2)
  · rename_i hs
    have hs : same = true := by simpa using hs
    rw [hsame] at hs
    -- The slot leaves its list, beside another one of its object.
    have hdrop : (∀ p, a.getLast? = some p → k.cap p ≠ .zombie) →
        wp (eraseThis x) (.debug cfg) (fun _ k₂ => wp (freeSlot x) (.debug cfg)
          (fun _ k' => Removes k k') (Stops k) k₂) (Stops k) k := by
      intro hp
      obtain ⟨t, ht⟩ := h.owner_of_cap hn.1
      refine wp_eraseFreeSlot h ht ?_
      obtain ⟨hinv, hstore⟩ := h.freed_store ht hl
      refine ⟨[.remove x], by simp [Act.IsRemoval], hinv, ?_⟩
      rw [hstore]
      refine .single (.drop hn hl hp ?_)
      rcases hs with ⟨p, hlast, hz⟩ | hs
      · exact absurd hz (hp p hlast)
      · exact hs
    rw [wp_bind, wp_get, prev_eq hl]
    cases ha : a.getLast? with
    | none =>
      simp only [wp_bind, wp_pure]
      exact hdrop (by simp [ha])
    | some p =>
      simp only [wp_bind, wp_get, wp_ite, wp_pure]
      split
      · rename_i hz
        obtain ⟨a', rfl⟩ := List.getLast?_eq_some_iff.mp ha
        have hp : a' ++ p :: x :: b ∈ k.chains := by simpa using hl
        refine wp_isSameObject stops_fatal hp hl fun u v hu hv => ?_
        rw [wp_kassert]
        split
        · refine wp_mono (wp_revokeCap h hT) (fun r k' hk' => hk'.removes) fun _ _ he => he
        · exact stops_fatal _ _ (by decide)
      · rename_i hz
        refine hdrop fun q hq heq => hz ?_
        obtain rfl : p = q := by simpa [ha] using hq
        rw [heq]
        rfl

theorem wp_destroyCap (h : StoreInv k ∅) (hT : TailInv k.store) :
    wp (destroyCap x) (.debug cfg) (fun _ k' => Removes k k') (Stops k) k := by
  unfold destroyCap
  rw [wp_bind, wp_get, wp_ite]
  split
  · exact ⟨[], by simp, does_errno h _⟩
  · rename_i hnull
    rw [wp_ite]
    split
    · rw [wp_bind]
      refine wp_mono (wp_revokeCap h hT) (fun r k₁ hk₁ => ?_) fun _ _ he => he
      have hremoves : Removes k k₁ := hk₁.removes
      rw [wp_ite]
      split
      · exact hremoves
      · rename_i hr
        obtain rfl : r = true := by simpa using hr
        obtain ⟨acts, hacts, hdoes⟩ := hremoves
        refine wp_mono (wp_destroyRevoked hdoes.inv (hT.moves h.storeOk hdoes.moves) hk₁.names)
          (fun _ k' hk' => ?_) fun _ k' he => he.after hdoes hacts
        exact Removes.trans ⟨acts, hacts, hdoes⟩ hk'
    · rename_i htype
      refine wp_destroyRevoked h hT ⟨fun heq => hnull ?_, fun heq => htype ?_⟩
      · rw [heq]
        rfl
      · rw [heq]
        exact Or.inr rfl

end Caprese
