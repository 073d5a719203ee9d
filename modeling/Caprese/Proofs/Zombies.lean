import Caprese.Proofs.Slots
import Caprese.Store.Lending
import Caprese.Store.Skip

/-!
# `Caprese.Proofs.Zombies`: zombies lead to what they have delegated

The links of a zombie lead over zombies to the slot that holds the capability which it has
delegated. The code relies on this: it follows `next` until it finds no zombie, and destroys an
object only where it expects one. `zombies_lead` says so for every state of a run, and for all
that happens in the middle of `revoke_cap` and `destroy_cap`.
-/

set_option autoImplicit false

namespace Caprese

open Lib Prog Chains

variable {cfg : Config} {boot : BootInfo} {k : Kernel} {lent : SlotPtr → Capability}

/-- What the code relies on that follows `next` past zombies. -/
structure ZombiesLead (k : Kernel) (lent : SlotPtr → Capability) : Prop where
  /-- A zombie leads to what it has delegated, along its derivation list. -/
  led : ∀ z, k.cap z = .zombie → ∃ m e, Walk k z (z :: m) e ∧
    (∃ l ∈ k.chains, z :: m ++ [e] <:+: l) ∧ (k.cap e).bare = (lent z).bare
  /-- The loop comes to the end of the walk, whatever slot in use it starts at. -/
  skips : ∀ s, k.cap s ≠ .null → ∃ m e, Walk k s m e ∧ ∀ cfg : Config,
    m.length < cfg.loopBound → skipZombies s (.debug cfg) k = .ok e k
  /-- `revoke_cap` starts no such loop elsewhere, and destroys no object where there is none: it
  is of no matter what these do there. -/
  revoke : ∀ (cfg : Config) (task : TaskPtr) (slot : SlotPtr) (skip : Option SlotPtr → K SlotPtr)
    (other : SlotPtr → K Unit), (∀ l ∈ k.chains, l.length ≤ cfg.loopBound) → Skips cfg skip →
    revokeCapWith skip other slot (.debug cfg) (k.dispatch task)
      = revokeCap slot (.debug cfg) (k.dispatch task)
  /-- Nor does `destroy_cap`. -/
  destroy : ∀ (cfg : Config) (task : TaskPtr) (slot : SlotPtr) (skip : Option SlotPtr → K SlotPtr)
    (other : SlotPtr → K Unit), (∀ l ∈ k.chains, l.length ≤ cfg.loopBound) → Skips cfg skip →
    destroyCapWith skip other slot (.debug cfg) (k.dispatch task)
      = destroyCap slot (.debug cfg) (k.dispatch task)

/-- The walk of a zombie, and what it leads to. -/
theorem CapStore.Lends.walk {z : SlotPtr} (h : k.store.Lends lent) (hk : KernelInv k)
    (hz : k.cap z = .zombie) : ∃ m e, Walk k z (z :: m) e ∧
      (∃ l ∈ k.chains, z :: m ++ [e] <:+: l) ∧ (k.cap e).bare = (lent z).bare := by
  obtain ⟨a, b, hl⟩ := hk.links.exists_chain (s := z) (by simp [hz])
  obtain ⟨m, e, b', rfl, hm, hne, hbare⟩ := behind_split (h a z b hl (by
    show (k.cap z).bare = _
    rw [hz]
    rfl))
  have he : (k.cap e).Names := ⟨hl.2.2 e (by simp), fun heq => hne (by
    show (k.cap e).bare = _
    rw [heq]
    rfl)⟩
  have hzombies : ∀ w ∈ z :: m, k.cap w = .zombie := by
    intro w hw
    rcases List.mem_cons.mp hw with rfl | hw
    · exact hz
    · exact Capability.bare_eq_zombie.mp (hm w hw)
  refine ⟨m, e, walk_of_list hzombies he a z hl rfl, ⟨_, hl, a, b', ?_⟩, hbare⟩
  simp

theorem KernelInv.walkable {cfg : Config} (h : KernelInv k) (task : TaskPtr)
    (hfits : ∀ l ∈ k.chains, l.length ≤ cfg.loopBound) : Walkable cfg (k.dispatch task) where
  inv := h.links.dispatch task
  tail := h.store.tail
  fits := hfits

/-- In a run in which no address wraps around, the loops past zombies are safe. -/
theorem zombies_lead (h : ReachesLending cfg boot Safe k lent) : ZombiesLead k lent := by
  obtain ⟨hk, hlends⟩ := h.lends fun _ _ hok => hok
  refine ⟨fun z hz => hlends.walk hk hz, fun s hs => ?_, fun cfg task slot skip other hfits hskip => ?_,
    fun cfg task slot skip other hfits hskip => ?_⟩
  · obtain ⟨a, b, hl⟩ := hk.links.exists_chain hs
    obtain ⟨m, e, b', -, hwalk⟩ := exists_walk hk.store.tail hl
    exact ⟨m, e, hwalk, fun cfg hbound => skipZombies_walk hwalk hbound⟩
  · exact revokeCapWith_eq hskip (hk.walkable task hfits)
  · exact destroyCapWith_eq hskip (hk.walkable task hfits)

/-- An endpoint that was delegated twice. -/
theorem zombies_lead_twice : ∃ k lent, ReachesLending sampleConfig sampleBoot Safe k lent ∧
    k.cap (sampleSlot 11) = .zombie ∧ k.cap (sampleSlot 12) = .zombie ∧
    k.cap (sampleSlot 13) = makeEndpointCap 0x1000 ∧ ZombiesLead k lent := by
  obtain ⟨k, hreach, h11, h12, h13⟩ := @sample_reaches Safe _
    [sampleTurn (.createObject (sampleSlot 6) .endpoint []),
      sampleTurn (.delegateCap sampleBoot.rootTask (sampleSlot 11)),
      sampleTurn (.delegateCap sampleBoot.rootTask (sampleSlot 12))]
    (fun k => k.cap (sampleSlot 11) = .zombie ∧ k.cap (sampleSlot 12) = .zombie ∧
      k.cap (sampleSlot 13) = makeEndpointCap 0x1000) _ (by decide +kernel)
  obtain ⟨lent, hlending⟩ := hreach.lending fun _ => .null
  exact ⟨k, lent, hlending, h11, h12, h13, zombies_lead hlending⟩

/-- The fill level of a small memory object is rounded up beyond its end, where an attached space
lies that a capability was delegated to. The space that is made there wipes it, and the zombie
leads to an empty slot. -/
theorem zombie_leads_nowhere : ¬ ∀ (cfg : Config) (boot : BootInfo) (k : Kernel)
    (lent : SlotPtr → Capability), ReachesLending cfg boot SpacesOnce k lent →
    ZombiesLead k lent := by
  intro hclaim
  obtain ⟨k, hreach, hz, hnext, hnull⟩ := @sample_reaches SpacesOnce _
    [sampleTurn (.createObject (sampleSlot 6) .mem [0x10, 0]),
      sampleTurn (.createObject (sampleSlot 6) .capSpace []),
      sampleTurn (.createObject (sampleSlot 6) .endpoint []),
      sampleTurn (.createObject (sampleSlot 11) .mem [8, 0]),
      sampleTurn (.insertCapSpace (sampleSlot 1) (sampleSlot 12)),
      sampleTurn (.delegateCap sampleBoot.rootTask (sampleSlot 13)),
      sampleTurn (.createObject (sampleSlot 11) .capSpace [])]
    (fun k => k.cap (sampleSlot 13) = .zombie ∧
      (k.slots (sampleSlot 13)).next = some ⟨0x2000, 0⟩ ∧ k.cap ⟨0x2000, 0⟩ = .null) _
    (by decide +kernel)
  obtain ⟨lent, hlending⟩ := hreach.lending fun _ => .null
  obtain ⟨m, e, hwalk, -⟩ := (hclaim _ _ k lent hlending).led (sampleSlot 13) hz
  cases hwalk with
  | zombie _ hn hrest =>
    obtain rfl := Option.some.inj (hn.symm.trans hnext)
    cases hrest with
    | holder hnames => exact hnames.1 hnull
    | zombie hz' => exact nomatch hz'.symm.trans hnull

end Caprese
