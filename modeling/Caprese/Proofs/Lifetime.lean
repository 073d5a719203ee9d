import Caprese.Store.Boot
import Caprese.Store.Objects

/-!
# `Caprese.Proofs.Lifetime`: an object lives as long as a slot denotes it

`destroy_cap_slot` runs the destructor of a task or an endpoint when the neighbours of the
slot are of other objects. Along a run in which no address wraps around this is when the last
slot of the object goes, neither earlier nor twice (`objects_live_as_denoted`). It is the
wrapped size check of `create_memory_object` that puts a second endpoint over the first one.
-/

set_option autoImplicit false

namespace Caprese

open Lib Prog Chains

variable {cfg : Config} {boot : BootInfo} {k k' : Kernel} {S S' : CapStore} {act : Act}
  {acts : List Act} {o : Object} {turn : Turn} {answer : Option Answer}

/-! ### The moves of one call -/

/-- A move that takes capabilities away makes no object. -/
theorem Trans.denoted_of_removal (ht : Trans S act S') (hact : act.IsRemoval)
    (h : S'.Denoted o) : S.Denoted o := by
  obtain ⟨r, hr⟩ := h
  have hclear : ∀ {s : SlotPtr}, S'.cap = upd S.cap s .null → S.Denoted o := by
    intro s hcap
    by_cases hrs : r = s
    · rw [hcap, hrs, upd_same] at hr
      exact absurd hr (by simp [Capability.object])
    · exact ⟨r, by rwa [hcap, upd_ne _ _ hrs] at hr⟩
  cases ht with
  | @undelegate z e a m b hz hm he hl =>
    change (if r = z then _ else if r ∈ m ∨ r = e then _ else _ : Capability).object = _ at hr
    split at hr
    · exact ⟨e, hr⟩
    · split at hr
      · exact absurd hr (by simp [Capability.object])
      · exact ⟨r, hr⟩
  | destroy => exact hclear rfl
  | drop => exact hclear rfl
  | _ => exact hact.elim

/-- A move that takes nothing away runs no destructor. -/
theorem Trans.destroys_eq (ht : Trans S act S') (hact : ¬ act.IsRemoval)
    (hself : act ≠ .selfDestroy) : destroys S'.trace o = destroys S.trace o := by
  have hattach : ∀ {t n p}, destroys (S.trace ++ [.attach t n p]) o = destroys S.trace o := by
    intro t n p
    rw [destroys_append]
    cases o <;> rfl
  cases ht with
  | adopt => exact hattach
  | attach => exact hattach
  | undelegate => exact absurd trivial hact
  | destroy => exact absurd trivial hact
  | drop => exact absurd trivial hact
  | selfDestroy => exact absurd rfl hself
  | _ => rfl

/-- What holds of the objects between two states of the store. -/
structure Carries (S S' : CapStore) : Prop where
  inv : CapInv S'
  objects : ObjectInv S'
  settles : ∀ o, Settles S S' o

/-- A sequence of moves that take capabilities away. -/
theorem carries_removals (hm : Moves S acts S') (hacts : ∀ act ∈ acts, act.IsRemoval)
    (hI : CapInv S) (hO : ObjectInv S) :
    Carries S S' ∧ ∀ o, S'.Denoted o → S.Denoted o := by
  induction hm with
  | nil => exact ⟨⟨hI, hO, fun o => Or.inr ⟨id, rfl⟩⟩, fun _ => id⟩
  | @snoc acts act S₁ S' _ ht ih =>
    have hact : act.IsRemoval := hacts act (by simp)
    have hself : act ≠ .selfDestroy := by
      rintro rfl
      exact hact
    obtain ⟨⟨hI₁, hO₁, hsettles⟩, hback⟩ := ih fun act' h => hacts act' (by simp [h])
    refine ⟨⟨hI₁.trans ht, hO₁.trans hI₁ ht hself, fun o => ?_⟩,
      fun o ho => hback o (ht.denoted_of_removal hact ho)⟩
    have hstep := ht.settles hself hO₁.together hI₁.ok o
    rcases hsettles o with ⟨hd, hgone, htrace⟩ | ⟨hkeep, htrace⟩
    · rcases hstep with ⟨hd₁, -, -⟩ | ⟨-, htrace'⟩
      · exact absurd hd₁ hgone
      · refine Or.inl ⟨hd, fun ho => hgone (ht.denoted_of_removal hact ho), ?_⟩
        rw [htrace', htrace]
    · rcases hstep with ⟨hd₁, hgone, htrace'⟩ | ⟨hkeep', htrace'⟩
      · exact Or.inl ⟨hback o hd₁, hgone, by rw [htrace', htrace]⟩
      · exact Or.inr ⟨fun hd => hkeep' (hkeep hd), by rw [htrace', htrace]⟩

/-- A sequence of moves that take nothing away. -/
theorem carries_others (hm : Moves S acts S')
    (hacts : ∀ act ∈ acts, ¬ act.IsRemoval ∧ act ≠ .selfDestroy) (hI : CapInv S)
    (hO : ObjectInv S) : Carries S S' := by
  have hall : Carries S S' ∧ ∀ o, (S.Denoted o → S'.Denoted o) ∧
      destroys S'.trace o = destroys S.trace o := by
    induction hm with
    | nil => exact ⟨⟨hI, hO, fun o => Or.inr ⟨id, rfl⟩⟩, fun _ => ⟨id, rfl⟩⟩
    | @snoc acts act S₁ S' _ ht ih =>
      obtain ⟨hact, hself⟩ := hacts act (by simp)
      obtain ⟨⟨hI₁, hO₁, -⟩, hkeep⟩ := ih fun act' h => hacts act' (by simp [h])
      have hboth : ∀ o, (S.Denoted o → S'.Denoted o) ∧
          destroys S'.trace o = destroys S.trace o := by
        intro o
        have htrace := ht.destroys_eq (o := o) hact hself
        obtain ⟨hd, htrace₁⟩ := hkeep o
        rcases ht.settles hself hO₁.together hI₁.ok o with ⟨-, -, hone⟩ | ⟨hd', -⟩
        · omega
        · exact ⟨fun h => hd' (hd h), htrace.trans htrace₁⟩
      exact ⟨⟨hI₁.trans ht, hO₁.trans hI₁ ht hself, fun o => Or.inr (hboth o)⟩, hboth⟩
  exact hall.1

/-! ### One call -/

/-- No task destroys its own task object: the call comes back. -/
def Returns (call : Turn × Option Answer) : Prop := call.2 ≠ none

/-- The calls that the rule of the last slot works for. -/
def SafeLife (k : Kernel) (call : Turn × Option Answer) : Prop := Safe k call ∧ Returns call

instance (call : Turn × Option Answer) : Decidable (Returns call) :=
  inferInstanceAs (Decidable (_ ≠ _))

instance (k : Kernel) (call : Turn × Option Answer) : Decidable (SafeLife k call) :=
  inferInstanceAs (Decidable (_ ∧ _))

/-- A call that comes back takes capabilities away, or takes none away. -/
theorem makes_acts {call : Call} {cap : SlotPtr → Capability} (h : call.Makes cap answer acts)
    (hreturns : answer ≠ none) : (∀ act ∈ acts, act.IsRemoval) ∨
      ∀ act ∈ acts, ¬ act.IsRemoval ∧ act ≠ .selfDestroy := by
  match answer, h with
  | none, _ => exact absurd rfl hreturns
  | some (.slot none), h =>
    obtain rfl : acts = [] := h
    exact Or.inl (by simp)
  | some (.slot (some y)), h =>
    obtain rfl : acts = call.slotActs cap y := h
    right
    cases call with
    | createObject x type args =>
      intro act hact
      by_cases htype : type = .task
      · have hact : act = .create x y ∨ act = .adopt := by
          simpa [Call.slotActs, htype] using hact
        rcases hact with rfl | rfl <;> exact ⟨id, by simp⟩
      · obtain rfl : act = .create x y := by simpa [Call.slotActs, htype] using hact
        exact ⟨id, by simp⟩
    | copyCap x =>
      intro act hact
      obtain rfl := List.mem_singleton.mp hact
      unfold copyAct
      split <;> exact ⟨id, by simp⟩
    | createId | transferCap | delegateCap =>
      intro act hact
      obtain rfl := List.mem_singleton.mp hact
      exact ⟨id, by simp⟩
    | _ =>
      intro act hact
      exact absurd hact List.not_mem_nil
  | some (.bool b), h =>
    rcases h with ⟨-, hacts⟩ | ⟨-, rfl⟩
    · exact Or.inl hacts
    · right
      intro act hact
      cases b with
      | false => exact absurd hact List.not_mem_nil
      | true =>
        cases call with
        | insertCapSpace | extendCapSpace | mapPageTable | unmapPageTable | mapVirtPage
          | unmapVirtPage | remapVirtPage =>
          obtain rfl := List.mem_singleton.mp hact
          exact ⟨id, by simp⟩
        | _ => exact absurd hact List.not_mem_nil

theorem Step.carries (hstep : Step cfg k turn answer k') (h : KernelInv k)
    (hO : ObjectInv k.store) (hsafe : SafeLife k (turn, answer)) :
    KernelInv k' ∧ Carries k.store k'.store := by
  obtain ⟨acts, hmakes, hdoes⟩ := hstep.serves h.links h.store hsafe.1
  refine ⟨hstep.keeps h hsafe.1, ?_⟩
  rcases makes_acts hmakes hsafe.2 with hacts | hacts
  · exact (carries_removals hdoes.moves hacts h.store hO).1
  · exact carries_others hdoes.moves hacts h.store hO

/-! ### From boot -/

/-- Boot records attachments only. -/
theorem Booted.destroys_eq (h : Booted boot k) (o : Object) : destroys k.trace o = 0 := by
  refine List.count_eq_zero.mpr fun hin => ?_
  have htrace := h.trace
  generalize k.trace = trace, boot.capSpace :: boot.capSpaces = spaces at htrace hin
  induction htrace with
  | nil => exact absurd hin List.not_mem_nil
  | cons hevent _ ih =>
    obtain ⟨n, rfl⟩ := hevent
    rcases List.mem_cons.mp hin with heq | hin
    · cases o <;> exact absurd heq (by simp [Object.destroyed])
    · exact ih hin

/-- At the end of boot every object has one slot, which is a list of its own. -/
theorem Booted.objectInv (h : Booted boot k) (hwf : boot.WellFormed) : ObjectInv k.store where
  together := by
    constructor
    · intro l hl
      obtain ⟨s, rfl⟩ := h.chain_single hl
      exact ⟨fun o _ ho => absurd ho List.not_mem_nil, trivial⟩
    · intro o s s' hs hs'
      have hss : s = s' := by
        by_contra hne
        have hapart := h.apart hwf hne (object_null hs) (object_null hs')
        have hin := Capability.covers_region (covers_addr hs)
        exact hapart.not_between hin (Capability.covers_region (covers_addr hs'))
      subst hss
      obtain ⟨a, b, hl⟩ := h.inv.exists_chain (object_null hs)
      exact ⟨_, hl, by simp, by simp⟩
  spent o ho := absurd (h.destroys_eq o) ho
  once o := by
    have hzero : destroys k.store.trace o = 0 := h.destroys_eq o
    omega

/-- The slots of the objects stand together, what was destroyed is gone and was destroyed once,
and the next call destroys an object if, and only if, it takes the last slot of it. -/
structure LiveAsDenoted (cfg : Config) (ok : Kernel → Turn × Option Answer → Prop) (k : Kernel) :
    Prop where
  together : Together k.store
  never_earlier : ∀ o, destroys k.trace o ≠ 0 → ¬ k.store.Denoted o
  never_twice : ∀ o, destroys k.trace o ≤ 1
  next : ∀ turn answer k', ok k (turn, answer) → Step cfg k turn answer k' →
    ∀ o, Settles k.store k'.store o

/-- In a run in which no address wraps around, the objects live as long as they are denoted. -/
theorem objects_live_as_denoted (h : Reaches cfg boot SafeLife k) :
    LiveAsDenoted cfg SafeLife k := by
  have hinv : KernelInv k ∧ ObjectInv k.store :=
    h.invariant (I := fun k => KernelInv k ∧ ObjectInv k.store)
      (fun k hk => ⟨hk.kernelInv h.wellFormed, hk.objectInv h.wellFormed⟩)
      fun k call k' hk hok hstep => by
        obtain ⟨hk', hcarries⟩ := hstep.carries hk.1 hk.2 hok
        exact ⟨hk', hcarries.objects⟩
  exact ⟨hinv.2.together, fun o ho => (hinv.2.spent o ho).1, hinv.2.once,
    fun turn answer k' hok hstep => (hstep.carries hinv.1 hinv.2 hok).2.settles⟩

/-- An endpoint and a copy of its capability, of which the first one is destroyed. -/
theorem objects_live_as_denoted_endpoint : ∃ k, Reaches sampleConfig sampleBoot SafeLife k ∧
    k.cap (sampleSlot 12) = makeEndpointCap 0x1000 ∧ k.cap (sampleSlot 11) = .null ∧
    LiveAsDenoted sampleConfig SafeLife k := by
  obtain ⟨k, hreach, hcap, hnull⟩ := @sample_reaches SafeLife _
    [sampleTurn (.createObject (sampleSlot 6) .endpoint []),
      sampleTurn (.copyCap (sampleSlot 11)),
      sampleTurn (.destroyCap (sampleSlot 11))]
    (fun k => k.cap (sampleSlot 12) = makeEndpointCap 0x1000 ∧ k.cap (sampleSlot 11) = .null) _
    (by decide +kernel)
  exact ⟨k, hreach, hcap, hnull, objects_live_as_denoted hreach⟩

/-- What the rule of the last slot takes for granted: spaces are attached once, and the call
comes back. -/
def OnceAndReturns (k : Kernel) (call : Turn × Option Answer) : Prop :=
  AttachesOnce k call.1 call.2 ∧ Returns call

instance (k : Kernel) (call : Turn × Option Answer) : Decidable (OnceAndReturns k call) :=
  inferInstanceAs (Decidable (_ ∧ _))

/-- Two endpoints at one address: the destruction of one leaves the other's slot. -/
theorem endpoint_destroyed_early : ¬ ∀ (cfg : Config) (boot : BootInfo) (k : Kernel),
    Reaches cfg boot OnceAndReturns k → LiveAsDenoted cfg OnceAndReturns k := by
  intro hclaim
  obtain ⟨k, hreach, hslot, hcount⟩ := @sample_reaches OnceAndReturns _
    [sampleTurn (.createObject (sampleSlot 6) .mem [0x20, 0]),
      sampleTurn (.createObject (sampleSlot 6) .mem [0x40, 0x40]),
      sampleTurn (.createObject (sampleSlot 11) .mem [0x10, 0]),
      sampleTurn (.createObject (sampleSlot 11) .endpoint []),
      sampleTurn (.createObject (sampleSlot 12) .endpoint []),
      sampleTurn (.destroyCap (sampleSlot 15))]
    (fun k => k.cap (sampleSlot 14) = makeEndpointCap 0x1040 ∧
      destroys k.trace (.endpoint 0x1040) = 1) _ (by decide +kernel)
  have hgone := (hclaim _ _ k hreach).never_earlier (.endpoint 0x1040) (by rw [hcount]; decide)
  exact hgone ⟨sampleSlot 14, congrArg Capability.object hslot⟩

end Caprese
