import Caprese.Proofs.Carving

/-!
# `Caprese.Proofs.Reclaim`: what a revocation gives back

`revoke_cap` of a memory capability destroys what was made of the memory, from the end of the list.
`destroy_memory_object` clears the fill level of the memory that is destroyed. The fill level of
the memory that is revoked stays as it is: so the memory is only as new if nothing was made of it
(`revoke_reclaims_iff`).
-/

set_option autoImplicit false

namespace Caprese

open Lib Prog Chains

variable {cfg : Config} {boot : BootInfo} {k k' k₀ : Kernel} {t : TaskPtr} {x y z : SlotPtr}
  {a : List SlotPtr} {m : MemoryCap} {size alignment : Nat} {S S' : CapStore}
  {calls : List (Turn × Option Answer)}

/-! ### Where the objects are put -/

/-- The addresses that a memory capability gives to requests of sizes and alignments, one after the
other, if it grants them all. -/
def MemoryCap.addresses : MemoryCap → List (Nat × Nat) → Option (List PhysAddr)
  | _, [] => some []
  | cap, (size, alignment) :: requests =>
    if cap.Grants size alignment then
      let base := cap.baseAddr alignment
      ((cap.carve base size).addresses requests).map (base :: ·)
    else none

/-- Nothing but links changed. -/
def SameCaps (k k' : Kernel) : Prop := k'.cap = k.cap

instance : IsPreorder Kernel SameCaps where
  refl _ := rfl
  trans _ _ _ h h' := Eq.trans h' h

theorem keeps_insertAfter_caps : Keeps SameCaps (insertAfter x y) :=
  keeps_insertAfter (fun _ _ => rfl) x y

/-- A call that makes an object makes it at the address that the capability gives. -/
theorem createMemoryObject_address (hx : k.cap x = .memory m) (hxy : y ≠ x)
    (hrun : createMemoryObject y x size alignment (.debug cfg) k = .ok (some z) k') :
    m.Grants size alignment ∧ k'.cap y = newMemory m size (m.baseAddr alignment) := by
  have hwp : wp (createMemoryObject y x size alignment) (.debug cfg) (fun answer k' =>
      answer ≠ none → m.Grants size alignment ∧ k'.cap y = newMemory m size (m.baseAddr alignment))
      (fun _ _ => True) k := by
    unfold createMemoryObject checkUnused makeMemoryCap storeCap
    rw [wp_bind]
    refine wp_memoryCap hx ?_
    simp only [wp_bind, wp_get, wp_kassert, wp_ite, wp_modify, wp_pure]
    split
    · split
      · exact fun hnone => absurd rfl hnone
      · rename_i hsize
        split
        · exact fun hnone => absurd rfl hnone
        · rename_i hrem
          split
          · rename_i hbase
            split
            · rename_i hsize'
              refine keeps_insertAfter_caps.wp (fun _ k' hcaps _ => ?_) fun _ _ _ => trivial
              refine ⟨⟨hsize, Nat.le_of_not_lt hrem, hbase, hsize'⟩, ?_⟩
              have hcaps : k'.cap = _ := hcaps
              rw [hcaps, Kernel.setCap_cap, upd_ne _ _ hxy, Kernel.setCap_cap, upd_same,
                Nat.mod_eq_of_lt hbase, Nat.mod_eq_of_lt hsize']
              rfl
            · trivial
          · trivial
    · trivial
  exact wp_ok hwp hrun (Option.some_ne_none z)

/-! ### A sequence of `create_object` -/

/-- The call makes an object out of the memory in `x`, or tries to. -/
def CreatesFrom (x : SlotPtr) (call : Turn × Option Answer) : Prop :=
  ∃ type args, call.1.call = .createObject x type args

/-- The memory `m` in `x` behind the slots `a`, after objects were made of it. -/
def DrawnFrom (a : List SlotPtr) (x : SlotPtr) (m : MemoryCap) (S : CapStore) : Prop :=
  ∃ b used, a ++ x :: b ∈ S.chains ∧ S.cap x = .memory { m with usedSize := used }

theorem DrawnFrom.create (h : DrawnFrom a x m S) (hok : StoreOk S) (ht : Trans S (.create x y) S') :
    DrawnFrom a x m S' := by
  obtain ⟨b, used, hl, hx⟩ := h
  cases ht with
  | @create _ _ a' b' m' size alignment base c hx' hy hl' carve object =>
    obtain ⟨rfl, rfl⟩ := hok.valid.split_unique hl hl'
    obtain rfl := Capability.memory.inj (hx.symm.trans hx')
    exact ⟨y :: b, _, new_mem_rewrite (by simp), upd_same _ _ _⟩

theorem DrawnFrom.adopt (h : DrawnFrom a x m S) (ht : Trans S .adopt S') : DrawnFrom a x m S' := by
  obtain ⟨b, used, hl, hx⟩ := h
  refine ⟨b, used, ?_, ((ht.adopts x).iff (by simp)).mpr hx⟩
  cases ht with
  | adopt => exact hl

theorem DrawnFrom.step {call : Turn × Option Answer} (h : DrawnFrom a x m k.store) (hk : KernelInv k)
    (hsafe : Safe k call) (hcall : CreatesFrom x call) (hstep : Step cfg k call.1 call.2 k') :
    DrawnFrom a x m k'.store := by
  obtain ⟨⟨t, c⟩, answer⟩ := call
  obtain ⟨type, args, hc⟩ := hcall
  obtain rfl : c = .createObject x type args := hc
  obtain ⟨acts, hmakes, -, hmoves⟩ := hstep.serves hk.links hk.store hsafe
  have hnothing : acts = [] → DrawnFrom a x m k'.store := by
    rintro rfl
    rw [hmoves.of_nil]
    exact h
  cases answer with
  | none => exact hmakes.1.elim
  | some answer =>
    cases answer with
    | bool r =>
      rcases hmakes with ⟨hremoves, -⟩ | ⟨-, hacts⟩
      · exact hremoves.elim
      · exact hnothing (by cases r <;> exact hacts)
    | slot r =>
      cases r with
      | none => exact hnothing hmakes
      | some y =>
        have hacts : acts = .create x y :: if type = .task then [.adopt] else [] := hmakes
        subst hacts
        split at hmoves
        · have hmoves : Steps Trans k.store ([.create x y] ++ [.adopt]) k'.store := hmoves
          obtain ⟨S, hcreate, hadopt⟩ := hmoves.of_snoc
          exact (h.create hk.store.ok hcreate.of_single).adopt hadopt
        · exact h.create hk.store.ok hmoves.of_single

/-- After the sequence the list of the memory has changed behind it alone. -/
theorem DrawnFrom.run (h : DrawnFrom a x m k₀.store) (hk : KernelInv k₀)
    (hrun : Run cfg (fun k call => Safe k call ∧ CreatesFrom x call) k₀ calls k) :
    KernelInv k ∧ DrawnFrom a x m k.store :=
  hrun.invariant (I := fun k => KernelInv k ∧ DrawnFrom a x m k.store) (fun _ _ _ hk hstep =>
    ⟨hstep.2.keeps hk.1 hstep.1.1, hk.2.step hk.1 hstep.1.1 hstep.1.2 hstep.2⟩) ⟨hk, h⟩

/-! ### The claim -/

/-- The memory in `x` is as it was: in the same list, empty, and with the same addresses to give. -/
structure Reclaimed (k₀ : Kernel) (x : SlotPtr) (k' : Kernel) : Prop where
  list : ∀ l ∈ k₀.chains, x ∈ l → l ∈ k'.chains
  empty : ∃ m, k'.cap x = .memory m ∧ m.usedSize = 0
  again : ∀ m m', k₀.cap x = .memory m → k'.cap x = .memory m' →
    ∀ requests, m'.addresses requests = m.addresses requests

/-- The revocation takes away what is behind the memory, and leaves the capability. -/
theorem Step.revoked (hstep : Step cfg k ⟨t, .revokeCap x⟩ (some (.bool true)) k') (hk : KernelInv k)
    (h : DrawnFrom a x m k.store) : a ++ [x] ∈ k'.chains ∧ k'.cap x = k.cap x := by
  obtain ⟨b, used, hl, hx⟩ := h
  have hwp : wp (Answer.bool <$> revokeCap x) (.debug cfg) (fun answer k' => answer = .bool true →
      a ++ [x] ∈ k'.chains ∧ k'.cap x = k.cap x) (fun _ _ => True) (k.dispatch t) := by
    rw [wp_map]
    refine wp_mono (wp_revokeCap (hk.links.dispatch t) hk.store.tail) (fun r k' hr hanswer => ?_)
      fun _ _ _ => trivial
    obtain rfl := Answer.bool.inj hanswer
    cases hr with
    | memory _ hrevoked =>
      obtain ⟨a', b', hl', hrev⟩ := hrevoked
      obtain ⟨rfl, rfl⟩ := k.chains_valid.split_unique hl hl'
      have hxb : x ∉ b := (hk.links.storeOk.nodup hl).2.1
      exact ⟨(hrev.chains _).mpr (Or.inr rfl), hrev.other x hxb⟩
    | zombie hz => exact nomatch hx.symm.trans hz
  exact hstep.of_wp hwp rfl

/-- A revocation that succeeds makes the memory new if and only if it was still empty: the fill
level does not change. -/
theorem revoke_reclaims_iff (h : Reaches cfg boot Safe k₀) (hl : a ++ [x] ∈ k₀.chains)
    (hx : k₀.cap x = .memory m) (hfresh : m.usedSize = 0)
    (hrun : Run cfg (fun k call => Safe k call ∧ CreatesFrom x call) k₀ calls k)
    (hstep : Step cfg k ⟨t, .revokeCap x⟩ (some (.bool true)) k') :
    Reclaimed k₀ x k' ↔ ∃ m, k.cap x = .memory m ∧ m.usedSize = 0 := by
  have hk₀ : KernelInv k₀ := h.kernelInv fun _ _ hok => hok
  have hdrawn₀ : DrawnFrom a x m k₀.store := ⟨[], m.usedSize, hl, hx⟩
  obtain ⟨hk, hdrawn⟩ := hdrawn₀.run hk₀ hrun
  obtain ⟨hlist, hcap⟩ := hstep.revoked hk hdrawn
  constructor
  · rintro ⟨-, hempty, -⟩
    rwa [hcap] at hempty
  · rintro ⟨m', hm', hempty⟩
    obtain ⟨b, used, -, hx'⟩ := hdrawn
    have hx' : k.cap x = .memory { m with usedSize := used } := hx'
    obtain rfl := Capability.memory.inj (hm'.symm.trans hx')
    have hsame : k'.cap x = .memory m := by
      rw [hcap, hx', show used = m.usedSize from hempty.trans hfresh.symm]
    refine ⟨fun l hl' hxl => ?_, ⟨m, hsame, hfresh⟩, fun m₁ m₂ h₁ h₂ requests => ?_⟩
    · rwa [k₀.chains_valid.unique l hl' _ hl x hxl (by simp)]
    · obtain rfl := Capability.memory.inj (hx.symm.trans h₁)
      obtain rfl := Capability.memory.inj (hsame.symm.trans h₂)
      rfl

/-- Two calls from the first state of the small machine, computed. -/
theorem sample_two {ok : Kernel → Turn × Option Answer → Prop} [∀ k call, Decidable (ok k call)]
    (turn turn' : Turn) {P : Kernel → Option Answer → Kernel → Option Answer → Kernel → Prop}
    [∀ k₀ answer k answer' k', Decidable (P k₀ answer k answer' k')]
    (h : (bootTurns sampleConfig sampleBoot ok []).any (fun k₀ =>
      (turn.next sampleConfig k₀).any fun next => (turn'.next sampleConfig next.2).any fun next' =>
        decide (P k₀ next.1 next.2 next'.1 next'.2)) = true) :
    ∃ k₀ answer k answer' k', Reaches sampleConfig sampleBoot ok k₀ ∧
      Step sampleConfig k₀ turn answer k ∧ Step sampleConfig k turn' answer' k' ∧
      P k₀ answer k answer' k' := by
  rw [Option.any_eq_true] at h
  obtain ⟨k₀, hk₀, h⟩ := h
  rw [Option.any_eq_true] at h
  obtain ⟨⟨answer, k⟩, hstep, h⟩ := h
  rw [Option.any_eq_true] at h
  obtain ⟨⟨answer', k'⟩, hstep', hP⟩ := h
  exact ⟨k₀, answer, k, answer', k', reaches_of_bootTurns sampleBoot_wellFormed hk₀, step_of_next hstep,
    step_of_next hstep', of_decide_eq_true hP⟩

/-- The root task's memory is alone in its list. -/
def AloneInSample (k₀ : Kernel) : Prop :=
  k₀.cap (sampleSlot 6) = .memory ⟨false, 0x40000, 0x1000, 0⟩ ∧
    (k₀.slots (sampleSlot 6)).prev = none ∧ (k₀.slots (sampleSlot 6)).next = none

instance : DecidablePred AloneInSample := fun _ => inferInstanceAs (Decidable (_ ∧ _ ∧ _))

theorem AloneInSample.chain (h : AloneInSample k₀) : [sampleSlot 6] ∈ k₀.chains := by
  refine ⟨by simp, Links.isList_singleton.mpr ⟨h.2.1, h.2.2⟩, fun s hs => ?_⟩
  obtain rfl := List.mem_singleton.mp hs
  rw [h.1]
  exact fun heq => nomatch heq

/-- Nothing was made of the memory: the request was for no bytes. -/
theorem revoke_reclaims_iff_refused : ∃ k₀ k k', Reaches sampleConfig sampleBoot Safe k₀ ∧
    Run sampleConfig (fun k call => Safe k call ∧ CreatesFrom (sampleSlot 6) call) k₀
      [(sampleTurn (.createObject (sampleSlot 6) .mem [0, 0]), some (.slot none))] k ∧
    Step sampleConfig k (sampleTurn (.revokeCap (sampleSlot 6))) (some (.bool true)) k' ∧
    Reclaimed k₀ (sampleSlot 6) k' := by
  obtain ⟨k₀, answer, k, answer', k', hreach, hstep, hstep', rfl, rfl, hsafe, halone, hk⟩ :=
    @sample_two Safe _ (sampleTurn (.createObject (sampleSlot 6) .mem [0, 0]))
      (sampleTurn (.revokeCap (sampleSlot 6)))
      (fun k₀ answer k answer' _ => answer = some (.slot none) ∧ answer' = some (.bool true) ∧
        Safe k₀ (sampleTurn (.createObject (sampleSlot 6) .mem [0, 0]), answer) ∧ AloneInSample k₀ ∧
        k.cap (sampleSlot 6) = .memory ⟨false, 0x40000, 0x1000, 0⟩) _ (by decide +kernel)
  have hrun : Run sampleConfig (fun k call => Safe k call ∧ CreatesFrom (sampleSlot 6) call) k₀
      [(sampleTurn (.createObject (sampleSlot 6) .mem [0, 0]), some (.slot none))] k :=
    .single ⟨⟨hsafe, .mem, [0, 0], rfl⟩, hstep⟩
  have hlist : [] ++ [sampleSlot 6] ∈ k₀.chains := halone.chain
  exact ⟨k₀, k, k', hreach, hrun, hstep',
    (revoke_reclaims_iff hreach hlist halone.1 rfl hrun hstep').mpr ⟨_, hk, rfl⟩⟩

/-- An endpoint is made, and destroyed by the revocation. Its 64 bytes are lost. -/
theorem revoke_loses_memory :
    ¬ ∀ (cfg : Config) (boot : BootInfo) (k₀ k k' : Kernel) (t : TaskPtr) (a : List SlotPtr)
      (x : SlotPtr) (m : MemoryCap) (calls : List (Turn × Option Answer)),
      Reaches cfg boot (fun _ _ => True) k₀ → a ++ [x] ∈ k₀.chains → k₀.cap x = .memory m →
      m.usedSize = 0 → Run cfg (fun _ call => CreatesFrom x call) k₀ calls k →
      Step cfg k ⟨t, .revokeCap x⟩ (some (.bool true)) k' → Reclaimed k₀ x k' := by
  intro hclaim
  obtain ⟨k₀, answer, k, answer', k', hreach, hstep, hstep', rfl, rfl, halone, hk'⟩ :=
    @sample_two (fun _ _ => True) _ (sampleTurn (.createObject (sampleSlot 6) .endpoint []))
      (sampleTurn (.revokeCap (sampleSlot 6)))
      (fun k₀ answer _ answer' k' => answer = some (.slot (some (sampleSlot 11))) ∧
        answer' = some (.bool true) ∧ AloneInSample k₀ ∧
        k'.cap (sampleSlot 6) = .memory ⟨false, 0x40000, 0x1000, 64⟩) _ (by decide +kernel)
  have hlist : [] ++ [sampleSlot 6] ∈ k₀.chains := halone.chain
  have hrun : Run sampleConfig (fun _ call => CreatesFrom (sampleSlot 6) call) k₀
      [(sampleTurn (.createObject (sampleSlot 6) .endpoint []),
        some (.slot (some (sampleSlot 11))))] k := .single ⟨⟨.endpoint, [], rfl⟩, hstep⟩
  obtain ⟨-, ⟨m, hm, hempty⟩, -⟩ :=
    hclaim _ _ _ _ _ _ _ _ _ _ hreach hlist halone.1 rfl hrun hstep'
  obtain rfl := Capability.memory.inj (hk'.symm.trans hm)
  exact nomatch hempty

end Caprese
