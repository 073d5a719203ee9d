import Caprese.Store.Boot

/-!
# `Caprese.Proofs.Transfer`: capabilities that change hands

`transfer_cap` and `delegate_cap` look for a free slot before they touch anything, and set an
error code where there is none. `copy_cap` hands the slot that it did not get to `insert_after`
(`transfers_clean_iff`).
-/

set_option autoImplicit false

namespace Caprese

open Lib Prog

variable {cfg : Config} {env : Env} {k k' : Kernel} {t owner : TaskPtr} {x : SlotPtr}
  {c : Capability} {E : Stop → Kernel → Prop}

/-! ### A slot for a capability -/

/-- The task is dead, or has no free slot. -/
def NoSlot (k : Kernel) (t : TaskPtr) : Prop :=
  isDead (k.tasks t) ∨ (k.tasks t).freeSlots = none

instance (k : Kernel) (t : TaskPtr) : Decidable (NoSlot k t) := inferInstanceAs (Decidable (_ ∨ _))

theorem wp_insertCap_cases {Q : Option SlotPtr → Kernel → Prop} (h : StoreInv k ∅)
    (hnone : NoSlot k t → ∀ e, e ≠ .sOk → Q none { k with errno := e })
    (hsome : ¬ NoSlot k t → ∀ s, (k.tasks t).freeSlots = some s → Popped k t s (k.popped t s) →
      Q (some s) ((k.popped t s).setCap s c)) : wp (insertCap t c) env Q E k := by
  unfold insertCap
  rw [wp_bind, wp_get, wp_ite]
  split
  · rename_i hdead
    exact hnone (Or.inl hdead) _ (by decide)
  · rename_i halive
    have hused : (k.tasks t).state ≠ .unused := fun heq => halive (Or.inl heq)
    rw [wp_bind, wp_popFreeSlots h hused]
    cases hs : (k.tasks t).freeSlots with
    | none => exact hnone (Or.inr hs) _ (by decide)
    | some s =>
      have hroom : ¬ NoSlot k t := by
        rintro (hdead | hnone)
        · exact halive hdead
        · rw [hs] at hnone
          exact nomatch hnone
      exact hsome hroom s hs (h.popped_spec hused hs)

/-! ### The claim -/

/-- The answer of a call that changes nothing but the error code where it fails. -/
def Cleanly (k : Kernel) : Option SlotPtr → Kernel → Prop
  | some _, _ => True
  | none, k' => ∃ e, e ≠ .sOk ∧ k' = { k with errno := e }

/-- The call returns, with a slot or with an error. -/
def RunsCleanly (cfg : Config) (k : Kernel) (call : K (Option SlotPtr)) : Prop :=
  ∃ answer k', call (.debug cfg) k = .ok answer k' ∧ Cleanly k answer k'

theorem RunsCleanly.of_wp {call : K (Option SlotPtr)}
    (h : wp call (.debug cfg) (Cleanly k) (fun _ _ => False) k) : RunsCleanly cfg k call := by
  obtain ⟨answer, k', hrun, hclean⟩ := wp_returns h
  exact ⟨answer, k', hrun, hclean⟩

theorem transfer_clean (h : StoreInv k ∅) (hx : k.slotTask x = some owner) :
    RunsCleanly cfg k (transferCap t (some x)) := by
  refine .of_wp ?_
  unfold transferCap
  rw [wp_bind]
  refine wp_kassert_holds (by simp) ?_
  rw [wp_bind, wp_deref]
  dsimp only
  rw [wp_bind, wp_get, wp_bind, hx, wp_deref]
  dsimp only
  rw [wp_bind, wp_get, wp_ite]
  split
  · exact ⟨_, by decide, rfl⟩
  · rename_i hfixed
    have hnames := names_of_not_fixed hfixed
    obtain ⟨a, b, hl⟩ := h.exists_chain hnames.1
    rw [wp_bind, wp_get, wp_ite]
    split
    · exact ⟨_, by decide, rfl⟩
    · rw [wp_bind, wp_get, wp_ite]
      split
      · exact ⟨_, by decide, rfl⟩
      · rw [wp_bind, wp_get, wp_bind]
        refine wp_insertCap_cases h (fun _ e he => ⟨e, he, rfl⟩) fun _ y _ hy => ?_
        simp only [wp_bind, wp_pure]
        exact hy.wp_move hnames.1 hx hl fun _ _ _ => trivial

theorem delegate_clean (hbound : 0 < cfg.loopBound) (h : StoreInv k ∅)
    (hx : k.slotTask x = some owner) : RunsCleanly cfg k (delegateCap t (some x)) := by
  refine .of_wp ?_
  unfold delegateCap
  rw [wp_bind, wp_deref]
  dsimp only
  rw [wp_bind, wp_get, wp_bind, hx, wp_deref]
  dsimp only
  rw [wp_bind, wp_get, wp_ite]
  split
  · exact ⟨_, by decide, rfl⟩
  · rename_i hfixed
    have hnames := names_of_not_fixed hfixed
    obtain ⟨a, b, hl⟩ := h.exists_chain hnames.1
    rw [wp_bind, wp_get, wp_ite]
    split
    · exact ⟨_, by decide, rfl⟩
    · rw [wp_bind, wp_get, wp_ite]
      split
      · exact ⟨_, by decide, rfl⟩
      · rw [wp_bind, wp_get, wp_bind]
        refine wp_insertCap_cases h (fun _ e he => ⟨e, he, rfl⟩) fun _ y _ hy => ?_
        simp only [wp_bind, wp_modify, wp_pure]
        have hloop : cfg.loopBound = 0 → ∀ k' : Kernel, False := fun heq _ => by omega
        exact hy.wp_derive hnames.1 hloop (by simp) hl fun _ _ _ => trivial

/-- A linked copy with a free slot. -/
theorem wp_copyLinked_clean (hbound : 0 < cfg.loopBound) (h : StoreInv k ∅) (hx : (k.cap x).Linked)
    (hslot : ¬ NoSlot k owner) :
    wp (copyLinked owner x) (.debug cfg) (fun y _ => y ≠ none) (fun _ _ => False) k := by
  have hnull : k.cap x ≠ .null := by
    intro heq
    rw [heq] at hx
    exact hx
  obtain ⟨a, b, hl⟩ := h.exists_chain hnull
  have hloop : cfg.loopBound = 0 → ∀ k' : Kernel, False := fun heq _ => by omega
  unfold copyLinked
  rw [wp_bind, wp_get, wp_bind]
  refine wp_insertCap_cases h (fun hno => absurd hno hslot) fun _ y _ hy => ?_
  rw [wp_bind]
  refine wp_kassert_holds (by simp) ?_
  rw [wp_bind, wp_deref]
  dsimp only
  rw [wp_bind]
  have hxc : ((k.popped owner y).setCap y (k.cap x)).cap x = k.cap x := by
    rw [Kernel.setCap_cap, upd_ne _ _ (hy.ne hnull), hy.cap]
  rw [← Kernel.setCap_self ((k.popped owner y).setCap y (k.cap x)) x, hxc]
  exact hy.wp_derive hnull hloop hnull hl fun _ _ _ => fun h => nomatch h

/-- A linked copy without a free slot. -/
theorem wp_copyLinked_noSlot (h : StoreInv k ∅) (hslot : NoSlot k owner) :
    wp (copyLinked owner x) (.debug cfg) (fun _ _ => False) (fun e _ => e = .assertFailed) k := by
  unfold copyLinked
  rw [wp_bind, wp_get, wp_bind]
  refine wp_insertCap_cases h (fun _ _ _ => ?_) fun hno => absurd hslot hno
  rw [wp_bind, wp_kassert, if_neg (by simp)]

/-- The copy is made by `copyLinked`, for the capabilities that stay linked. -/
theorem wp_copyCap_linked {Q : Option SlotPtr → Kernel → Prop} (hx : k.slotTask x = some owner)
    (hlinked : (k.cap x).Linked) (hQ : wp (copyLinked owner x) env (fun y k' =>
      wp (if y = none then do setErrno .eCapType; return none else return y : K (Option SlotPtr))
        env Q E k') E k) : wp (copyCap x) env Q E k := by
  unfold copyCap
  rw [wp_bind, wp_get, wp_bind, hx, wp_deref]
  dsimp only
  rw [wp_bind, wp_get]
  cases hc : k.cap x with
  | task cap =>
    dsimp only [getCapType]
    rw [wp_bind]
    exact hQ
  | endpoint cap =>
    dsimp only [getCapType]
    rw [wp_bind]
    exact hQ
  | _ =>
    rw [hc] at hlinked
    exact hlinked.elim

/-- A copy that is linked to its source needs a slot. -/
theorem copy_clean_iff (hbound : 0 < cfg.loopBound) (h : StoreInv k ∅)
    (hx : k.slotTask x = some owner) :
    RunsCleanly cfg k (copyCap x) ↔ ¬ ((k.cap x).Linked ∧ NoSlot k owner) := by
  constructor
  · rintro ⟨answer, k', hrun, -⟩ ⟨hlinked, hslot⟩
    -- The copy is linked in before its slot is known, and no slot fails the assertion.
    have hstuck : wp (copyCap x) (.debug cfg) (fun _ _ => False) (fun e _ => e = .assertFailed) k := by
      refine wp_copyCap_linked hx hlinked ?_
      exact wp_mono (wp_copyLinked_noSlot h hslot) (fun _ _ hfalse => hfalse.elim) fun _ _ hE => hE
    exact wp_ok hstuck hrun
  · intro hslot
    refine .of_wp ?_
    by_cases hlinked : (k.cap x).Linked
    · refine wp_copyCap_linked hx hlinked ?_
      refine wp_mono (wp_copyLinked_clean hbound h hlinked fun hno => hslot ⟨hlinked, hno⟩) ?_
        fun _ _ hE => hE
      intro y k' hy
      rw [wp_ite, if_neg hy]
      cases y with
      | none => exact absurd rfl hy
      | some y => trivial
    -- The other types are refused, except an id, which is inserted as it is.
    · have hfails : Cleanly k none { k with errno := .eCapType } := ⟨_, by decide, rfl⟩
      unfold copyCap
      rw [wp_bind, wp_get, wp_bind, hx, wp_deref]
      dsimp only
      rw [wp_bind, wp_get]
      cases hc : k.cap x with
      | task cap =>
        rw [hc] at hlinked
        exact absurd trivial hlinked
      | endpoint cap =>
        rw [hc] at hlinked
        exact absurd trivial hlinked
      | id i =>
        dsimp only [getCapType]
        rw [wp_bind, wp_get, wp_bind]
        refine wp_insertCap_cases h (fun _ e _ => ?_) fun _ y _ _ => ?_
        · rw [wp_ite, if_pos rfl]
          exact hfails
        · rw [wp_ite, if_neg (by simp)]
          trivial
      | _ => exact hfails

/-- A build in which loops may turn. -/
def turnConfig : Config := ⟨16, 0, 0, fun _ => ⟨0, 0, 0, 0, 0, []⟩, fun _ => [], 0, 0⟩

/-- A task whose space is full, but for the slot 1 if there is room. An endpoint is in the slot 2. -/
def spaceKernel (room : Bool) : Kernel :=
  { Kernel.powerOn.setTask 1 { Task.zero with
      state := .running
      freeSlots := if room then some ⟨0x9000, 1⟩ else none
      freeSlotsCount := if room then 1 else 0 } with
    capSpaces := fun p => if p = 0x9000 then ⟨some 1, 0⟩ else ⟨none, 0⟩
    slots := fun s =>
      if s.space = 0x9000 ∧ s.index ≠ 0 ∧ s.index < NUM_SLOTS ∧ ¬ (room ∧ s.index = 1) then
        if s.index = 2 then ⟨.endpoint ⟨true, true, 0x8000⟩, none, none⟩
        else ⟨.id ⟨0, 0, 0⟩, none, none⟩
      else ⟨.null, none, none⟩ }

section SpaceKernel

variable {room : Bool} {s : SlotPtr}

theorem spaceKernel_links : (spaceKernel room).links.IsList [s] := by
  rw [Links.isList_singleton]
  unfold Kernel.links spaceKernel
  dsimp only
  split_ifs
  · exact ⟨rfl, rfl⟩
  · exact ⟨rfl, rfl⟩
  · exact ⟨rfl, rfl⟩

theorem spaceKernel_null : (spaceKernel room).cap s = .null ↔
    ¬ (s.space = 0x9000 ∧ s.index ≠ 0 ∧ s.index < NUM_SLOTS ∧ ¬ (room ∧ s.index = 1)) := by
  unfold Kernel.cap spaceKernel
  dsimp only
  split_ifs with hin hendpoint
  · exact ⟨fun heq => (nomatch heq), fun hout => absurd hin hout⟩
  · exact ⟨fun heq => (nomatch heq), fun hout => absurd hin hout⟩
  · exact ⟨fun _ => hin, fun _ => rfl⟩

theorem spaceKernel_owner : (spaceKernel room).owner s = some t ↔
    t = 1 ∧ s.space = 0x9000 ∧ s.index ≠ 0 ∧ s.index < NUM_SLOTS := by
  obtain ⟨space, index⟩ := s
  by_cases hspace : space = 0x9000
  · subst hspace
    have hinfo : (spaceKernel room).capSpaces 0x9000 = ⟨some 1, 0⟩ := rfl
    unfold Kernel.owner
    rw [hinfo]
    by_cases hin : index < NUM_SLOTS ∧ ¬ (index = 0 ∧ 0 = 0)
    · rw [if_pos hin]
      exact ⟨fun heq => ⟨(Option.some.inj heq).symm, rfl, fun hzero => hin.2 ⟨hzero, rfl⟩, hin.1⟩,
        fun hone => congrArg some hone.1.symm⟩
    · rw [if_neg hin]
      exact ⟨fun heq => (nomatch heq),
        fun hone => absurd ⟨hone.2.2.2, fun hzero => hone.2.2.1 hzero.1⟩ hin⟩
  · have hinfo : (spaceKernel room).capSpaces space = ⟨none, 0⟩ := if_neg hspace
    unfold Kernel.owner
    rw [hinfo, ite_self]
    exact ⟨fun heq => (nomatch heq), fun hin => absurd hin.2.1 hspace⟩

theorem spaceKernel_inv : StoreInv (spaceKernel room) ∅ := by
  have hstate : ∀ t, ((spaceKernel room).tasks t).state ≠ .unused → t = 1 := by
    intro t ht
    by_contra hne
    refine ht ?_
    show (upd (fun _ => Task.zero) 1 _ t).state = .unused
    rw [upd_ne _ _ hne]
    rfl
  refine ⟨fun s => ⟨[s], List.mem_singleton_self s, spaceKernel_links⟩,
    fun s hs => ⟨?_, spaceKernel_links⟩, fun s hs => absurd hs (Set.notMem_empty s), fun p t hp => ?_,
    fun t ht => ?_⟩
  · rw [spaceKernel_null]
    rintro ⟨hspace, hzero, hlt, -⟩
    rw [spaceKernel_owner.mpr ⟨rfl, hspace, hzero, hlt⟩] at hs
    exact nomatch hs
  · change (if p = 0x9000 then (⟨some 1, 0⟩ : MetaInfo) else ⟨none, 0⟩).task = some t at hp
    split at hp
    · obtain rfl := Option.some.inj hp
      exact fun h => nomatch h
    · exact nomatch hp
  · obtain rfl := hstate t ht
    cases room with
    | false =>
      refine ⟨[], by simp, rfl, rfl, fun s => ⟨fun hs => absurd hs List.not_mem_nil, ?_⟩⟩
      rintro ⟨howner, hnull, -⟩
      obtain ⟨-, hin⟩ := spaceKernel_owner.mp howner
      exact absurd ⟨hin.1, hin.2.1, hin.2.2, fun h => nomatch h.1⟩ (spaceKernel_null.mp hnull)
    | true =>
      refine ⟨[⟨0x9000, 1⟩], spaceKernel_links, rfl, rfl, fun s => ?_⟩
      rw [List.mem_singleton, spaceKernel_owner, spaceKernel_null]
      constructor
      · rintro rfl
        exact ⟨⟨rfl, rfl, by decide, by decide⟩, by decide, Set.notMem_empty _⟩
      · rintro ⟨⟨-, hspace, hzero, hlt⟩, hnull, -⟩
        have hone : s.index = 1 := by
          by_contra hne
          exact hnull ⟨hspace, hzero, hlt, fun h => hne h.2⟩
        obtain ⟨space, index⟩ := s
        exact congrArg₂ SlotPtr.mk hspace hone

end SpaceKernel

end Caprese
