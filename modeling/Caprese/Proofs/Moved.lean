import Caprese.Proofs.Transfer
import Caprese.Store.Places

/-!
# `Caprese.Proofs.Moved`: a transfer keeps the place

`transfer_cap` puts a capability into a slot of another task and this slot into the place of the
old one (`transfer_keeps_place`). What later revocations and destructions take away they take away
from the same places. A dead task gives nothing away: the function checks the task that it
transfers to, and the one that it transfers from.
-/

set_option autoImplicit false

namespace Caprese

open Lib Prog Chains

variable {cfg : Config} {k k' k₁ k₂ : Kernel} {src dst t : TaskPtr} {x y s : SlotPtr}
  {a b : List SlotPtr} {E : Stop → Kernel → Prop}

/-! ### The transfer -/

/-- The capability in `x`, of `src`, went to the free slot `y` of `dst`. -/
structure Transferred (k : Kernel) (src dst : TaskPtr) (x y : SlotPtr) (k' : Kernel) : Prop where
  inv : StoreInv k' ∅
  taken : (k.tasks dst).freeSlots = some y
  free : k.cap y = .null
  cap : k'.cap = upd (upd k.cap y (k.cap x)) x .null
  place : ∀ a b, a ++ x :: b ∈ k.chains → a ++ y :: b ∈ k'.chains
  lists : ∀ l, y ∉ l → (l ∈ k'.chains ↔ l ∈ k.chains ∧ x ∉ l)
  freed : (k'.tasks src).freeSlots = some x
  rest : SameRest k k'
  others : ∀ t, t ≠ src → t ≠ dst → k'.tasks t = k.tasks t

theorem Transferred.of_store (hinv : StoreInv k' ∅) (htaken : (k.tasks dst).freeSlots = some y)
    (hy : k.cap y = .null) (hl : a ++ x :: b ∈ k.chains) (hstore : k'.store = { k.store with
      cap := upd (upd k.cap y (k.cap x)) x .null, chains := rewrite k.chains x (a ++ y :: b) })
    (hfreed : (k'.tasks src).freeSlots = some x) (hrest : SameRest k k')
    (hothers : ∀ t, t ≠ src → t ≠ dst → k'.tasks t = k.tasks t) : Transferred k src dst x y k' := by
  have hchains : k'.chains = rewrite k.chains x (a ++ y :: b) := congrArg CapStore.chains hstore
  refine ⟨hinv, htaken, hy, congrArg CapStore.cap hstore, fun a' b' hl' => ?_, fun l hyl => ?_, hfreed,
    hrest, hothers⟩
  · obtain ⟨rfl, rfl⟩ := k.chains_valid.split_unique hl hl'
    rw [hchains]
    exact new_mem_rewrite (by simp)
  · rw [hchains, mem_rewrite]
    constructor
    · rintro (⟨hold, hxl, -⟩ | ⟨rfl, -⟩)
      · exact ⟨hold, hxl⟩
      · exact absurd (by simp) hyl
    · rintro ⟨hold, hxl⟩
      refine Or.inl ⟨hold, hxl, fun z hz hzl => ?_⟩
      rcases List.mem_append.mp hz with hza | hzb
      · exact hxl (k.chains_valid.unique _ hold _ hl z hzl (by simp [hza]) ▸ by simp)
      · rcases List.mem_cons.mp hzb with rfl | hzb
        · exact hyl hzl
        · exact hxl (k.chains_valid.unique _ hold _ hl z hzl (by simp [hzb]) ▸ by simp)

/-- Nothing but slots and the free list of one task changed. -/
def Aside (t : TaskPtr) (k k' : Kernel) : Prop :=
  SameRest k k' ∧ ∀ t', t' ≠ t → k'.tasks t' = k.tasks t'

instance : IsPreorder Kernel (Aside t) where
  refl _ := ⟨rfl, fun _ _ => rfl⟩
  trans _ _ _ h h' := ⟨trans_of SameRest h.1 h'.1, fun t' ht => (h'.2 t' ht).trans (h.2 t' ht)⟩

theorem keeps_replace_aside : Keeps (Aside t) (replace y x) :=
  keeps_replace (fun _ _ => ⟨rfl, fun _ _ => rfl⟩) y x

theorem keeps_pushFreeSlots_aside : Keeps (Aside t) (pushFreeSlots t s) :=
  keeps_pushFreeSlots (fun _ _ => ⟨rfl, fun _ _ => rfl⟩)
    (fun _ _ _ => ⟨setTask_unslotted rfl, fun _ ht => upd_ne _ _ ht⟩)
    (fun _ _ _ => ⟨rfl, fun _ _ => rfl⟩) s

/-- The slot that is given back is the first one to be taken again. -/
theorem wp_pushFreeSlots_head : wp (pushFreeSlots t s) (.debug cfg)
    (fun _ k' => (k'.tasks t).freeSlots = some s) (fun _ _ => True) k := by
  have hset : ∀ k : Kernel, ((k.setTask t { k.tasks t with
      freeSlots := some s, freeSlotsCount := (k.tasks t).freeSlotsCount + 1 }).tasks t).freeSlots
        = some s := fun k => by rw [Kernel.setTask_tasks, upd_same]
  unfold pushFreeSlots
  rw [wp_bind, wp_get, wp_bind]
  refine wp_any (fun _ k₁ => ?_) fun _ _ => trivial
  rw [wp_bind]
  refine wp_any (fun _ k₂ => ?_) fun _ _ => trivial
  rw [wp_bind, wp_modify, wp_bind, wp_get]
  cases ((k₂.setCap s .null).tasks t).freeSlots with
  | none => exact hset _
  | some head =>
    rw [wp_bind]
    exact wp_any (fun _ k₃ => hset k₃) fun _ _ => trivial

theorem transfer_spec (h : StoreInv k ∅) (hx : k.slotTask x = some src)
    (hnames : (k.cap x).Names) (hsrc : ¬ isDead (k.tasks src)) (hdst : ¬ isDead (k.tasks dst))
    (hroom : (k.tasks dst).freeSlots ≠ none) :
    ∃ y k', transferCap dst (some x) (.debug cfg) k = .ok (some y) k' ∧
      Transferred k src dst x y k' := by
  obtain ⟨a, b, hl⟩ := h.exists_chain hnames.1
  have hfixed : ¬ isFixed (k.cap x) := by
    rintro (hnull | hzombie)
    · exact hnames.1 (by cases hc : k.cap x <;> simp_all [getCapType])
    · exact hnames.2 (by cases hc : k.cap x <;> simp_all [getCapType])
  have hwp : wp (transferCap dst (some x)) (.debug cfg)
      (fun answer k' => ∃ y, answer = some y ∧ Transferred k src dst x y k') (fun _ _ => False) k := by
    unfold transferCap
    rw [wp_bind]
    refine wp_kassert_holds (by simp) ?_
    rw [wp_bind, wp_deref]
    dsimp only
    rw [wp_bind, wp_get, wp_bind, hx, wp_deref]
    dsimp only
    rw [wp_bind, wp_get, wp_ite, if_neg hfixed, wp_bind, wp_get, wp_ite, if_neg hdst, wp_bind, wp_get,
      wp_ite, if_neg hsrc, wp_bind, wp_get, wp_bind]
    -- No slot contradicts the room that is assumed.
    refine wp_insertCap_cases h (fun hno => ?_) fun _ y htaken hy => ?_
    · rcases hno with hdead | hnone
      · exact absurd hdead hdst
      · exact absurd hnone hroom
    · generalize hk₁ : (k.popped dst y).setCap y (k.cap x) = k₁
      -- The slot is popped and filled: what is left puts `y` into the place of `x` in its chain.
      have hmove : wp (do replace y x; pushFreeSlots src x) (.debug cfg) (fun _ k' => StoreInv k' ∅ ∧
          k'.store = { k.store with
            cap := upd (upd k.cap y (k.cap x)) x .null
            chains := rewrite k.chains x (a ++ y :: b) }) (fun _ _ => False) k₁ := by
        rw [wp_bind, ← hk₁]
        exact hy.wp_move hnames.1 hx hl fun k' hinv hstore => ⟨hinv, hstore⟩
      -- All that the store does not show is left as it was, but for the free slots of `src`.
      have haside : wp (do replace y x; pushFreeSlots src x) (.debug cfg) (fun _ k' => Aside src k₁ k')
          (fun _ _ => True) k₁ :=
        (keeps_bind keeps_replace_aside fun _ => keeps_pushFreeSlots_aside).wp (fun _ _ hk' => hk')
          fun _ _ _ => trivial
      have hhead : wp (do replace y x; pushFreeSlots src x) (.debug cfg)
          (fun _ k' => (k'.tasks src).freeSlots = some x) (fun _ _ => True) k₁ := by
        rw [wp_bind]
        exact wp_any (fun _ _ => wp_pushFreeSlots_head) fun _ _ => trivial
      simp only [wp_bind, wp_pure]
      refine (wp_bind _ _).mp (wp_mono (wp_and hmove (wp_and haside hhead)) ?_ fun _ _ hstop => hstop.1)
      rintro _ k' ⟨⟨hinv, hstore⟩, ⟨hrest, htasks⟩, hfreed⟩
      refine ⟨y, rfl, .of_store hinv htaken hy.null hl hstore hfreed ?_ fun t hsrc hdst => ?_⟩
      · show k'.unslotted = k.unslotted
        have hk₁' : k₁.unslotted = (k.popped dst y).unslotted := by
          rw [← hk₁]
          rfl
        have hrest : k'.unslotted = k₁.unslotted := hrest
        rw [hrest, hk₁', popped_unslotted]
      · rw [htasks t hsrc, ← hk₁]
        exact upd_ne _ _ hdst
  obtain ⟨answer, k', hrun, y, rfl, hk'⟩ := wp_returns hwp
  exact ⟨y, k', hrun, hk'⟩

/-- The transfer exchanges the two slots. -/
theorem Transferred.renamed (h : Transferred k src dst x y k') (hk : StoreInv k ∅)
    (hx : k.cap x ≠ .null) : Renamed (Equiv.swap x y) k k' where
  inv := hk
  inv' := h.inv
  cap s := by
    have hxy : x ≠ y := fun heq => hx (heq ▸ h.free)
    rw [h.cap]
    rcases eq_or_ne s x with rfl | hsx
    · rw [Equiv.swap_apply_left, upd_ne _ _ (Ne.symm hxy), upd_same]
    · rcases eq_or_ne s y with rfl | hsy
      · rw [Equiv.swap_apply_right, upd_same, h.free]
      · rw [Equiv.swap_apply_of_ne_of_ne hsx hsy, upd_ne _ _ hsx, upd_ne _ _ hsy]
  chains l hl := by
    have hyl : y ∉ l := chains_fresh h.free l hl
    have hkeep : ∀ m : List SlotPtr, x ∉ m → y ∉ m → m.map (Equiv.swap x y) = m := by
      intro m hxm hym
      have hfix : ∀ s ∈ m, Equiv.swap x y s = s := fun s hs =>
        Equiv.swap_apply_of_ne_of_ne (ne_of_mem_of_not_mem hs hxm) (ne_of_mem_of_not_mem hs hym)
      rw [List.map_congr_left hfix]
      exact List.map_id' m
    by_cases hxl : x ∈ l
    · obtain ⟨a, b, rfl⟩ := List.append_of_mem hxl
      have hxab := (hk.storeOk.nodup hl)
      rw [List.map_append, List.map_cons, Equiv.swap_apply_left, hkeep a hxab.1 (by simp_all),
        hkeep b hxab.2.1 (by simp_all)]
      exact h.place a b hl
    · rw [hkeep l hxl hyl]
      exact (h.lists l hyl).mpr ⟨hl, hxl⟩
  rest := h.rest

/-! ### What is withdrawn later -/

/-- A call that takes capabilities away. -/
inductive Withdrawal where
  | revoke (slot : SlotPtr)
  | destroy (slot : SlotPtr)
deriving DecidableEq, Repr

def Withdrawal.slot : Withdrawal → SlotPtr
  | .revoke slot => slot
  | .destroy slot => slot

def Withdrawal.run : Withdrawal → K Bool
  | .revoke slot => revokeCap slot
  | .destroy slot => destroyCap slot

/-- A withdrawal with its answer. There is none where the running task destroyed itself. -/
inductive Withdraws (cfg : Config) (k : Kernel) : Withdrawal × Option Bool → Kernel → Prop
  | answers {call : Withdrawal} {answer : Bool} {k' : Kernel}
      (run : call.run (.debug cfg) k = .ok answer k') : Withdraws cfg k (call, some answer) k'
  | leaves {call : Withdrawal} {k' : Kernel} (run : call.run (.debug cfg) k = .stop .switched k') :
      Withdraws cfg k (call, none) k'

/-- The capabilities of `k` are those of `k'`, with `y` for `x`, at the same places. -/
structure SamePlaces (x y : SlotPtr) (k k' : Kernel) : Prop where
  cap : ∀ s, k'.cap (Equiv.swap x y s) = k.cap s
  lists : ∀ l : List SlotPtr, l.map (Equiv.swap x y) ∈ k'.chains ↔ l ∈ k.chains

theorem Renamed.samePlaces (h : Renamed (Equiv.swap x y) k k') : SamePlaces x y k k' :=
  ⟨h.cap, fun _ => h.mem_chains_iff⟩

/-- One withdrawal from another slot. -/
theorem Renamed.withdraws {call : Withdrawal × Option Bool} (h : Renamed (Equiv.swap x y) k k')
    (hx : call.1.slot ≠ x) (hy : call.1.slot ≠ y) (hstep : Withdraws cfg k call k₁) :
    ∃ k₁', Withdraws cfg k' call k₁' ∧ Renamed (Equiv.swap x y) k₁ k₁' := by
  have hboth : ∀ call : Withdrawal, call.slot ≠ x → call.slot ≠ y →
      wpBoth call.run call.run (.debug cfg) (fun r r' k k' => r' = r ∧ Renamed (Equiv.swap x y) k k')
        (Parted (Equiv.swap x y)) k k' := by
    intro call hx hy
    cases call with
    | revoke slot =>
      have hrun : wpBoth (revokeCap slot) (revokeCap (Equiv.swap x y slot)) (.debug cfg)
          (fun r r' k k' => r' = r ∧ Renamed (Equiv.swap x y) k k') (Parted (Equiv.swap x y)) k k' :=
        both_revokeCap h fun _ _ _ h₁ _ => ⟨rfl, h₁⟩
      have hslot : Equiv.swap x y slot = slot := Equiv.swap_apply_of_ne_of_ne hx hy
      rwa [hslot] at hrun
    | destroy slot =>
      have hrun : wpBoth (destroyCap slot) (destroyCap (Equiv.swap x y slot)) (.debug cfg)
          (fun r r' k k' => r' = r ∧ Renamed (Equiv.swap x y) k k') (Parted (Equiv.swap x y)) k k' :=
        both_destroyCap h fun _ _ _ h₁ => ⟨rfl, h₁⟩
      have hslot : Equiv.swap x y slot = slot := Equiv.swap_apply_of_ne_of_ne hx hy
      rwa [hslot] at hrun
  cases hstep with
  | answers run =>
    rcases wpBoth_iff.mp (hboth _ hx hy) with ⟨r, r', k₂, k₂', hrun, hrun', rfl, h₁⟩ | ⟨e, _, _, hrun, -⟩
    · obtain ⟨rfl, rfl⟩ := Outcome.ok.inj (hrun.symm.trans run)
      exact ⟨k₂', .answers hrun', h₁⟩
    · exact nomatch hrun.symm.trans run
  | leaves run =>
    rcases wpBoth_iff.mp (hboth _ hx hy) with ⟨r, r', _, _, hrun, -⟩ | ⟨e, k₂, k₂', hrun, hrun', hparted⟩
    · exact nomatch hrun.symm.trans run
    · obtain ⟨rfl, rfl⟩ := Outcome.stop.inj (hrun.symm.trans run)
      exact ⟨k₂', .leaves hrun', hparted rfl⟩

/-- Withdrawals from other slots, one after the other. -/
theorem Renamed.withdrawals {calls : List (Withdrawal × Option Bool)}
    (h : Renamed (Equiv.swap x y) k k') (hother : ∀ call ∈ calls, call.1.slot ≠ x ∧ call.1.slot ≠ y)
    (hsteps : Steps (Withdraws cfg) k calls k₁) :
    ∃ k₁', Steps (Withdraws cfg) k' calls k₁' ∧ Renamed (Equiv.swap x y) k₁ k₁' := by
  induction hsteps with
  | nil => exact ⟨k', .nil, h⟩
  | snoc _ hstep ih =>
    obtain ⟨k₁', hsteps', h₁⟩ := ih fun call hcall => hother call (List.mem_append_left _ hcall)
    obtain ⟨hx, hy⟩ := hother _ (List.mem_append_right _ (List.mem_singleton_self _))
    obtain ⟨k₂', hstep', h₂⟩ := h₁.withdraws hx hy hstep
    exact ⟨k₂', .snoc hsteps' hstep', h₂⟩

/-- The task 1 has one free slot. The task 2 was killed, and its slots are full. -/
def graveKernel : Kernel :=
  { (Kernel.powerOn.setTask 1 { Task.zero with
      state := .running
      freeSlots := some ⟨0x9000, 1⟩
      freeSlotsCount := 1 }).setTask 2 { Task.zero with state := .killed } with
    capSpaces := fun p =>
      if p = 0x9000 then ⟨some 1, 0⟩ else if p = 0xA000 then ⟨some 2, 0⟩ else ⟨none, 0⟩
    slots := fun s =>
      if (s.space = 0x9000 ∨ s.space = 0xA000) ∧ s.index ≠ 0 ∧ s.index < NUM_SLOTS ∧
          s ≠ ⟨0x9000, 1⟩ then ⟨.id ⟨0, 0, 0⟩, none, none⟩
      else ⟨.null, none, none⟩ }

section GraveKernel

theorem graveKernel_links : graveKernel.links.IsList [s] := by
  rw [Links.isList_singleton]
  unfold Kernel.links graveKernel
  dsimp only
  split_ifs
  · exact ⟨rfl, rfl⟩
  · exact ⟨rfl, rfl⟩

theorem graveKernel_null : graveKernel.cap s = .null ↔
    ¬ ((s.space = 0x9000 ∨ s.space = 0xA000) ∧ s.index ≠ 0 ∧ s.index < NUM_SLOTS ∧
      s ≠ ⟨0x9000, 1⟩) := by
  unfold Kernel.cap graveKernel
  dsimp only
  split_ifs with hin
  · exact ⟨fun heq => (nomatch heq), fun hout => absurd hin hout⟩
  · exact ⟨fun _ => hin, fun _ => rfl⟩

theorem graveKernel_owner : graveKernel.owner s = some t ↔
    (t = 1 ∧ s.space = 0x9000 ∨ t = 2 ∧ s.space = 0xA000) ∧ s.index ≠ 0 ∧ s.index < NUM_SLOTS := by
  have hinfo : graveKernel.capSpaces s.space =
      if s.space = 0x9000 then ⟨some 1, 0⟩ else if s.space = 0xA000 then ⟨some 2, 0⟩ else ⟨none, 0⟩ :=
    rfl
  unfold Kernel.owner
  rw [hinfo]
  by_cases h9 : s.space = 0x9000
  · simp [h9, and_comm, eq_comm]
  · by_cases hA : s.space = 0xA000
    · simp [hA, and_comm, eq_comm]
    · simp [h9, hA]

theorem graveKernel_inv : StoreInv graveKernel ∅ := by
  have hstate : ∀ t, (graveKernel.tasks t).state ≠ .unused → t = 1 ∨ t = 2 := by
    intro t ht
    by_contra hne
    rw [not_or] at hne
    refine ht ?_
    show (upd (upd (fun _ => Task.zero) 1 _) 2 _ t).state = .unused
    rw [upd_ne _ _ hne.2, upd_ne _ _ hne.1]
    rfl
  refine ⟨fun s => ⟨[s], List.mem_singleton_self s, graveKernel_links⟩,
    fun s hs => ⟨?_, graveKernel_links⟩, fun s hs => absurd hs (Set.notMem_empty s), fun p t hp => ?_,
    fun t ht => ?_⟩
  · rw [graveKernel_null]
    rintro ⟨hspace | hspace, hzero, hlt, -⟩
    · exact nomatch (graveKernel_owner.mpr ⟨.inl ⟨rfl, hspace⟩, hzero, hlt⟩).symm.trans hs
    · exact nomatch (graveKernel_owner.mpr ⟨.inr ⟨rfl, hspace⟩, hzero, hlt⟩).symm.trans hs
  · change (if p = 0x9000 then (⟨some 1, 0⟩ : MetaInfo) else
      if p = 0xA000 then ⟨some 2, 0⟩ else ⟨none, 0⟩).task = some t at hp
    split_ifs at hp
    · obtain rfl := Option.some.inj hp
      exact fun h => nomatch h
    · obtain rfl := Option.some.inj hp
      exact fun h => nomatch h
  · rcases hstate t ht with rfl | rfl
    · refine ⟨[⟨0x9000, 1⟩], graveKernel_links, rfl, rfl, fun s => ?_⟩
      rw [List.mem_singleton, graveKernel_owner, graveKernel_null]
      constructor
      · rintro rfl
        exact ⟨⟨.inl ⟨rfl, rfl⟩, by decide, by decide⟩, fun h => h.2.2.2 rfl, Set.notMem_empty _⟩
      · rintro ⟨⟨hspace | ⟨htwo, -⟩, hzero, hlt⟩, hnull, -⟩
        · by_contra hne
          exact hnull ⟨.inl hspace.2, hzero, hlt, hne⟩
        · exact absurd htwo (by decide)
    · refine ⟨[], by simp, rfl, rfl, fun s => ⟨fun hs => absurd hs List.not_mem_nil, ?_⟩⟩
      rintro ⟨howner, hnull, -⟩
      obtain ⟨⟨hone, -⟩ | ⟨-, hspace⟩, hzero, hlt⟩ := graveKernel_owner.mp howner
      · exact absurd hone (by decide)
      · refine absurd ⟨.inr hspace, hzero, hlt, ?_⟩ (graveKernel_null.mp hnull)
        rintro rfl
        exact absurd hspace (by decide)

end GraveKernel

end Caprese
