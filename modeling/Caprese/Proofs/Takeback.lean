import Caprese.Store.Heirs

/-!
# `Caprese.Proofs.Takeback`: what the revocation of a delegation takes back

`revoke_cap` of a zombie takes the capability back from all who have it by delegations and
transfers (`revoke_takes_back`). A copy is a capability of its own: who copied it before keeps
the copy (`copy_survives_revoke`).
-/

set_option autoImplicit false

namespace Caprese

open Lib Prog Chains Relation

variable {cfg : Config} {boot : BootInfo} {k k' : Kernel} {t : TaskPtr} {z : SlotPtr}
  {calls : List (Turn × Option Answer)} {lent : SlotPtr → Capability}
  {heir : SlotPtr → SlotPtr → Prop}

/-- The zombie `z` has its capability back, from the slots that had it by what `heir` says. -/
structure TakenBack (k : Kernel) (lent : SlotPtr → Capability) (heir : SlotPtr → SlotPtr → Prop)
    (z : SlotPtr) (k' : Kernel) : Prop where
  /-- One of the heirs held the capability that was delegated, and the zombie has it as it was
  there. -/
  held : ∃ e, heir z e ∧ (k.cap e).Names ∧ (k.cap e).bare = (lent z).bare ∧ k'.cap z = k.cap e
  gone : ∀ w, heir z w → k'.cap w = .null
  others : ∀ w, w ≠ z → ¬ heir z w → k'.cap w = k.cap w

/-- The revocation of a zombie, as a move. -/
theorem Step.takes_back (hstep : Step cfg k ⟨t, .revokeCap z⟩ (some (.bool true)) k')
    (hk : KernelInv k) (hz : k.cap z = .zombie) : Trans k.store (.undelegate z) k'.store := by
  cases hstep.revokes hk with
  | memory hm => exact nomatch hm.symm.trans hz
  | zombie _ _ _ hmove => exact hmove

theorem taken_back (hk : KernelInv k) (hlends : k.store.Lends lent)
    (hinherits : k.store.Inherits heir) (hmove : Trans k.store (.undelegate z) k'.store) :
    TakenBack k lent heir z k' := by
  generalize hS' : k'.store = S' at hmove
  cases hmove with
  | @undelegate _ e a m b hz hm he hl =>
    have hz : k.cap z = .zombie := hz
    have hm : ∀ s ∈ m, k.cap s = .zombie := hm
    have he : (k.cap e).Names := he
    have hcap : ∀ w, k'.cap w
        = if w = z then k.cap e else if w ∈ m ∨ w = e then .null else k.cap w := fun w =>
      congrFun (congrArg CapStore.cap hS') w
    have hzl : z ∉ m ∧ z ≠ e := by
      have hnd := hk.store.ok.nodup hl
      simp only [List.mem_append, List.mem_cons, not_or] at hnd
      exact ⟨hnd.2.1.1, hnd.2.1.2.1⟩
    have hzombies : ∀ s ∈ z :: m, k.cap s = .zombie := by
      intro s hs
      rcases List.mem_cons.mp hs with rfl | hs
      · exact hz
      · exact hm s hs
    -- The heirs in use are the slots from the zombie to the holder.
    have hpath : ∀ w, w ∈ m ∨ w = e → heir z w := by
      intro w hw
      have hwn : k.cap w ≠ .null := by
        rcases hw with hw | rfl
        · simp [hm w hw]
        · exact he.1
      exact (hinherits z w hwn).mpr (path_of_list he.2 a z hl hzombies w hw)
    have hmem : ∀ w, k.cap w ≠ .null → heir z w → w ∈ m ∨ w = e := fun w hw hin =>
      mem_of_path hk.store.ok hl he.2 ((hinherits z w hw).mp hin)
    refine ⟨⟨e, hpath e (Or.inr rfl), he, ?_, by rw [hcap, if_pos rfl]⟩, fun w hw => ?_,
      fun w hwz hw => ?_⟩
    · have hfirst := hlends a z (m ++ e :: b) hl (Capability.bare_eq_zombie.mpr hz)
      have hnone : behind .zombie (fun s => (k.cap s).bare) m = none :=
        behind_eq_none.mpr fun s hs => by rw [hm s hs]; rfl
      have hfirst : behind .zombie (fun s => (k.cap s).bare) (m ++ e :: b)
          = some (lent z).bare := hfirst
      rw [behind_append, hnone, Option.none_or,
        behind_cons_value (f := fun s => (k.cap s).bare) (by simpa using he.2)] at hfirst
      exact Option.some.inj hfirst
    · rw [hcap]
      by_cases hnull : k.cap w = .null
      · have hwz : w ≠ z := fun heq => by simp [heq, hz] at hnull
        rw [if_neg hwz, hnull, ite_self]
      · have hin := hmem w hnull hw
        have hwz : w ≠ z := by
          rintro rfl
          exact hin.elim hzl.1 hzl.2
        rw [if_neg hwz, if_pos hin]
    · rw [hcap, if_neg hwz, if_neg fun hin => hw (hpath w hin)]

/-- In a run in which no address wraps around, the revocation of a zombie that succeeds takes the
capability back from every slot that has it by delegations and transfers, and from no other. -/
theorem revoke_takes_back (h : ReachesBy cfg boot Safe calls k lent) (hz : k.cap z = .zombie)
    (hstep : Step cfg k ⟨t, .revokeCap z⟩ (some (.bool true)) k') :
    TakenBack k lent (heirs calls) z k' := by
  obtain ⟨hk, hlends, hinherits⟩ := h.inherits fun _ _ hok => hok
  exact taken_back hk hlends hinherits (hstep.takes_back hk hz)

/-- An endpoint that was delegated twice is taken back. -/
theorem revoke_takes_back_twice : ∃ calls k lent k',
    ReachesBy sampleConfig sampleBoot Safe calls k lent ∧ k.cap (sampleSlot 11) = .zombie ∧
    k.cap (sampleSlot 12) = .zombie ∧ k'.cap (sampleSlot 11) = makeEndpointCap 0x1000 ∧
    TakenBack k lent (heirs calls) (sampleSlot 11) k' := by
  obtain ⟨k₀, trail, k, answer, k', hsetup, hrun, hstep, rfl, h11, h12, hback⟩ :=
    @sample_trail Safe _
      [sampleTurn (.createObject (sampleSlot 6) .endpoint []),
        sampleTurn (.delegateCap sampleBoot.rootTask (sampleSlot 11)),
        sampleTurn (.delegateCap sampleBoot.rootTask (sampleSlot 12))]
      (sampleTurn (.revokeCap (sampleSlot 11)))
      (fun _ k answer k' => answer = some (.bool true) ∧ k.cap (sampleSlot 11) = .zombie ∧
        k.cap (sampleSlot 12) = .zombie ∧ k'.cap (sampleSlot 11) = makeEndpointCap 0x1000) _
      (by decide +kernel)
  obtain ⟨lent, hlending⟩ := hrun.lending fun _ => .null
  have hreach : ReachesBy sampleConfig sampleBoot Safe (trail.map Prod.snd) k lent :=
    ⟨sampleBoot_wellFormed, k₀, _, hsetup, hlending⟩
  exact ⟨_, k, lent, k', hreach, h11, h12, hback, revoke_takes_back hreach h11 hstep⟩

/-- The delegatee of an endpoint copies it. The copy is left. -/
theorem copy_survives_revoke : ¬ ∀ (cfg : Config) (boot : BootInfo)
    (calls : List (Turn × Option Answer)) (k k' : Kernel) (lent : SlotPtr → Capability)
    (t : TaskPtr) (z : SlotPtr), ReachesBy cfg boot Safe calls k lent → k.cap z = .zombie →
    Step cfg k ⟨t, .revokeCap z⟩ (some (.bool true)) k' → TakenBack k lent (obtained calls) z k' := by
  intro hclaim
  obtain ⟨k₀, trail, k, answer, k', hsetup, hrun, hstep, rfl, hcalls, hz, hcopy⟩ :=
    @sample_trail Safe _
      [sampleTurn (.createObject (sampleSlot 6) .endpoint []),
        sampleTurn (.delegateCap sampleBoot.rootTask (sampleSlot 11)),
        sampleTurn (.copyCap (sampleSlot 12))]
      (sampleTurn (.revokeCap (sampleSlot 11)))
      (fun trail k answer k' => answer = some (.bool true) ∧ trail.map Prod.snd =
          [(sampleTurn (.createObject (sampleSlot 6) .endpoint []),
              some (.slot (some (sampleSlot 11)))),
            (sampleTurn (.delegateCap sampleBoot.rootTask (sampleSlot 11)),
              some (.slot (some (sampleSlot 12)))),
            (sampleTurn (.copyCap (sampleSlot 12)), some (.slot (some (sampleSlot 13))))] ∧
        k.cap (sampleSlot 11) = .zombie ∧ k'.cap (sampleSlot 13) = makeEndpointCap 0x1000) _
      (by decide +kernel)
  obtain ⟨lent, hlending⟩ := hrun.lending fun _ => .null
  have hback := hclaim _ _ _ k k' lent _ _ ⟨sampleBoot_wellFormed, k₀, _, hsetup, hlending⟩ hz hstep
  have hgone := hback.gone (sampleSlot 13) (by
    rw [hcalls]
    simp [obtained, Call.passOn, bequeath, sampleTurn, sampleSlot])
  rw [hcopy] at hgone
  exact absurd hgone (by decide)

end Caprese
