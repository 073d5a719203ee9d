import Caprese.Store.Descent

/-!
# `Caprese.Proofs.Revocation`: what the revocation of memory takes away

`revoke_cap` of a memory capability empties all slots behind it on its list. These are the ones
that were derived from it, and those of the lines that parted earlier from its own one
(`revoke_empties`): what its parent was asked for before is lost too
(`elder_sibling_revoked`), and what it was asked for later stays.
-/

set_option autoImplicit false

namespace Caprese

open Lib Prog Chains

variable {cfg : Config} {boot : BootInfo} {k k' : Kernel} {t : TaskPtr} {x : SlotPtr}
  {m : MemoryCap} {trail : List (Kernel × Turn × Option Answer)} {D : Descent}

/-- The slots that `gone` tells were emptied, and no others changed. -/
structure Emptied (k : Kernel) (gone : SlotPtr → Prop) (k' : Kernel) : Prop where
  empty : ∀ s, gone s → k'.cap s = .null
  others : ∀ s, ¬ gone s → k'.cap s = k.cap s

/-- The revocation of a memory capability: what is behind it on its list is emptied. -/
theorem Step.revokes_memory (hstep : Step cfg k ⟨t, .revokeCap x⟩ (some (.bool true)) k')
    (hk : KernelInv k) (hm : k.cap x = .memory m) : Revoked (k.dispatch t) x k' := by
  cases hstep.revokes hk with
  | memory _ hrevoked => exact hrevoked
  | zombie hz => exact nomatch hz.symm.trans hm

theorem emptied_behind (hk : KernelInv k) (htells : k.store.Tells D) (hx : k.cap x ≠ .null)
    (hrevoked : Revoked (k.dispatch t) x k') : Emptied k (D.Behind x) k' := by
  obtain ⟨a, b, hl, hrev⟩ := hrevoked
  have hl : a ++ x :: b ∈ k.store.chains := hl
  have hbehind : ∀ s, k.cap s ≠ .null → (s ∈ b ↔ D.Behind x s) := fun s hs => by
    rw [← htells x s hx hs]
    exact ((precedes_node hk.store.ok.valid hl).2).symm
  constructor
  · intro s hs
    by_cases hb : s ∈ b
    · exact hrev.null s hb List.not_mem_nil
    · rw [hrev.other s hb]
      by_contra hne
      exact hb ((hbehind s hne).mpr hs)
  · intro s hs
    refine hrev.other s fun hb => hs ((hbehind s ?_).mp hb)
    exact hk.store.ok.not_null hl (by simp [hb])

/-- In a run in which no address wraps around, the revocation of a memory capability that succeeds
empties exactly the slots that were derived from it and those of earlier lines. -/
theorem revoke_empties (h : ReachesAlong cfg boot Safe trail k) (hm : k.cap x = .memory m)
    (hstep : Step cfg k ⟨t, .revokeCap x⟩ (some (.bool true)) k') :
    Emptied k (fun s => (descent trail).derived x s ∨ (descent trail).elder x s) k' := by
  obtain ⟨hk, htells⟩ := h.tells fun _ _ hok => hok
  exact emptied_behind hk htells (by simp [hm]) (hstep.revokes_memory hk hm)

/-- A block of memory, and an endpoint in it. -/
theorem revoke_empties_endpoint : ∃ trail k k',
    ReachesAlong sampleConfig sampleBoot Safe trail k ∧
    k.cap (sampleSlot 12) = makeEndpointCap 0x1000 ∧ k'.cap (sampleSlot 12) = .null ∧
    Emptied k (fun s => (descent trail).derived (sampleSlot 11) s ∨
      (descent trail).elder (sampleSlot 11) s) k' := by
  obtain ⟨k₀, trail, k, answer, k', hsetup, hrun, hstep, rfl, h11, h12, hgone⟩ :=
    @sample_trail Safe _
      [sampleTurn (.createObject (sampleSlot 6) .mem [0x1000, 0]),
        sampleTurn (.createObject (sampleSlot 11) .endpoint [])]
      (sampleTurn (.revokeCap (sampleSlot 11)))
      (fun _ k answer k' => answer = some (.bool true) ∧
        k.cap (sampleSlot 11) = .memory ⟨false, 0x1000, 0x1000, ENDPOINT_SIZE⟩ ∧
        k.cap (sampleSlot 12) = makeEndpointCap 0x1000 ∧ k'.cap (sampleSlot 12) = .null) _
      (by decide +kernel)
  have hreach : ReachesAlong sampleConfig sampleBoot Safe trail k :=
    ⟨sampleBoot_wellFormed, k₀, hsetup, hrun⟩
  exact ⟨trail, k, k', hreach, h12, hgone, revoke_empties hreach h11 hstep⟩

/-- Two blocks of memory from one. The revocation of the second one takes the first one away. -/
theorem elder_sibling_revoked : ¬ ∀ (cfg : Config) (boot : BootInfo)
    (trail : List (Kernel × Turn × Option Answer)) (k k' : Kernel) (t : TaskPtr) (x : SlotPtr)
    (m : MemoryCap), ReachesAlong cfg boot Safe trail k → k.cap x = .memory m →
    Step cfg k ⟨t, .revokeCap x⟩ (some (.bool true)) k' →
    Emptied k ((descent trail).derived x) k' := by
  intro hclaim
  obtain ⟨k₀, trail, k, answer, k', hsetup, hrun, hstep, rfl, hmade, h11, h12, hgone⟩ :=
    @sample_trail Safe _
      [sampleTurn (.createObject (sampleSlot 6) .mem [0x1000, 0]),
        sampleTurn (.createObject (sampleSlot 6) .mem [0x1000, 0])]
      (sampleTurn (.revokeCap (sampleSlot 12)))
      (fun trail k answer k' => answer = some (.bool true) ∧
        trail.flatMap (fun call => call.2.1.call.made call.1.cap call.2.2)
          = [.create (sampleSlot 6) (sampleSlot 11), .create (sampleSlot 6) (sampleSlot 12)] ∧
        k.cap (sampleSlot 11) = .memory ⟨false, 0x1000, 0x1000, 0⟩ ∧
        k.cap (sampleSlot 12) = .memory ⟨false, 0x1000, 0x2000, 0⟩ ∧
        k'.cap (sampleSlot 11) = .null) _ (by decide +kernel)
  have hothers := (hclaim _ _ trail k k' _ _ _ ⟨sampleBoot_wellFormed, k₀, hsetup, hrun⟩ h12
    hstep).others (sampleSlot 11) (by
      unfold descent
      rw [hmade]
      simp [Descent.after, Descent.derive, Descent.none, sampleSlot])
  rw [hgone, h11] at hothers
  exact absurd hothers (by simp)

end Caprese
