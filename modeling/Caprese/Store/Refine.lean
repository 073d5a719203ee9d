import Caprese.Store.Frame
import Caprese.Store.Relink
import Caprese.Store.Shape
import Mathlib.Order.BooleanAlgebra.Set

/-!
# `Caprese.Store.Refine`: capabilities that change hands are moves

`Does k acts k'` says that an operation took the kernel from `k` to `k'`, with every slot in
its list, by the moves `acts` of the abstract machine. Each operation on capabilities has one
lemma of this form. `Popped k t y k₁` is the state in the middle of most of them: the slot
`y` is off the free list of the task `t`, and nothing else has happened.

A failed assertion, a panic, a null dereference and a loop that exceeds its bound are not
described. The postcondition of a stop is `Fatal`: it says nothing about them.
-/

set_option autoImplicit false

namespace Caprese

open Lib Prog Chains

variable {cfg : Config} {k k' k₁ : Kernel} {t : TaskPtr} {x y s : SlotPtr} {a b : List SlotPtr}
  {c c' : Capability} {E : Stop → Kernel → Prop}

/-! ### The abstract state -/

theorem store_eq (hcap : k'.cap = k.cap) (hchains : k'.chains = k.chains)
    (htables : k'.pageTables = k.pageTables)
    (hstate : ∀ t, (k'.tasks t).state = .unused ↔ (k.tasks t).state = .unused)
    (hroot : ∀ t, (k'.tasks t).rootPageTable = (k.tasks t).rootPageTable)
    (hspaces : k'.capSpaces = k.capSpaces) (htrace : k'.trace = k.trace) :
    k'.store = k.store := by
  unfold Kernel.store
  rw [hcap, hchains, htables, hspaces, htrace]
  congr 1
  funext t
  rw [hroot]
  by_cases h : (k.tasks t).state = .unused
  · rw [if_pos h, if_pos ((hstate t).mpr h)]
  · rw [if_neg h, if_neg (mt (hstate t).mp h)]

theorem CapFrame.store (h : CapFrame k k') : k'.store = k.store :=
  store_eq h.cap h.chains h.pageTables h.unused h.rootPageTable h.capSpaces h.trace

/-- The error code is no part of the capability store. -/
theorem CapFrame.errno (k : Kernel) (e : SysError) : CapFrame k { k with errno := e } :=
  .of_eq rfl rfl rfl rfl rfl rfl

@[simp] theorem Kernel.setCap_self (k : Kernel) (s : SlotPtr) : k.setCap s (k.cap s) = k := by
  unfold Kernel.setCap
  have heq : { k.slots s with cap := k.cap s } = k.slots s := rfl
  rw [heq, upd_self]

theorem setCap_store (hs : k.cap s ≠ .null) (hc : c ≠ .null) :
    (k.setCap s c).store = k.store.setCap s c := by
  unfold Kernel.store CapStore.setCap
  rw [Kernel.setCap_cap, update_chains hs hc]
  rfl

theorem CapStore.derive_setCap {S : CapStore} {d : Capability} (hxy : x ≠ y) :
    (S.derive x y a b c c').setCap y d = S.derive x y a b d c' := by
  unfold CapStore.derive CapStore.setCap
  congr 1
  funext z
  simp only [upd_apply]
  by_cases hz : z = y
  · simp [hz, Ne.symm hxy]
  · simp [hz]

theorem StoreInv.storeOk {held : Set SlotPtr} (h : StoreInv k held) : StoreOk k.store where
  valid := k.chains_valid
  mem s := by
    constructor
    · intro hs
      obtain ⟨a, b, hl⟩ := h.exists_chain hs
      exact ⟨_, hl, by simp⟩
    · rintro ⟨l, hl, hs⟩
      exact hl.2.2 s hs

/-- An entry of a table is no part of the lists. -/
theorem StoreInv.setPte {held : Set SlotPtr} (h : StoreInv k held) (table : TablePtr)
    (index : Nat) (e : Pte) : StoreInv (k.setPte table index e) held :=
  (⟨rfl, rfl, fun _ => rfl, fun _ => rfl, fun _ => Iff.rfl⟩ :
    StoreFrame k (k.setPte table index e)).storeInv h

/-! ### What an operation does -/

/-- The operation took `k` to `k'` by the moves `acts`. -/
structure Does (k : Kernel) (acts : List Act) (k' : Kernel) : Prop where
  inv : StoreInv k' ∅
  moves : Moves k.store acts k'.store

theorem Does.nothing (h : StoreInv k' ∅) (hs : k'.store = k.store) : Does k [] k' :=
  ⟨h, hs ▸ .nil⟩

theorem CapFrame.does (hf : CapFrame k k') (h : StoreInv k ∅) : Does k [] k' :=
  .nothing (hf.storeInv h) hf.store

theorem Does.append {k'' : Kernel} {acts acts' : List Act} (h : Does k acts k')
    (h' : Does k' acts' k'') : Does k (acts ++ acts') k'' := ⟨h'.inv, h.moves.append h'.moves⟩

/-- A held slot goes to its free list, which the abstract machine does not see. -/
theorem StoreInv.freed_held {held : Set SlotPtr} (h : StoreInv k held) (hown : k.owner s = some t)
    (hs : s ∈ held) :
    StoreInv (k.freed t s) (held \ {s}) ∧ (k.freed t s).store = k.store := by
  refine ⟨h.freed hown (Or.inr hs), ?_⟩
  refine store_eq ?_ (h.freed_held_chains hown hs) rfl (fun t' => ?_) (fun t' => ?_) rfl rfl
  · rw [Kernel.freed_cap, ← (h.isolated s hs).1, upd_self]
  · rw [Kernel.freed_state]
  · by_cases ht : t' = t <;> simp [Kernel.freed, upd_apply, ht]

/-- The slot `y` was taken off the free list of `t`. -/
structure Popped (k : Kernel) (t : TaskPtr) (y : SlotPtr) (k₁ : Kernel) : Prop where
  inv : StoreInv k₁ {y}
  store : k₁.store = k.store
  owner : k₁.owner y = some t
  tasks : ∀ t', (k₁.tasks t').state = (k.tasks t').state ∧
    (k₁.tasks t').rootPageTable = (k.tasks t').rootPageTable ∧
    (k₁.tasks t').capCount = (k.tasks t').capCount

namespace Popped

theorem cap (h : Popped k t y k₁) : k₁.cap = k.cap := congrArg CapStore.cap h.store

theorem chains (h : Popped k t y k₁) : k₁.chains = k.chains := congrArg CapStore.chains h.store

theorem null (h : Popped k t y k₁) : k.cap y = .null := by
  rw [← h.cap]
  exact (h.inv.isolated y rfl).1

theorem frame (h : Popped k t y k₁) (hf : StoreFrame k₁ k') (hs : k'.store = k₁.store)
    (ht : k'.tasks = k₁.tasks) : Popped k t y k' where
  inv := hf.storeInv h.inv
  store := hs.trans h.store
  owner := hf.owner ▸ h.owner
  tasks := ht ▸ h.tasks

theorem errno (h : Popped k t y k₁) (e : SysError) : Popped k t y { k₁ with errno := e } :=
  h.frame (CapFrame.errno k₁ e).toStoreFrame (CapFrame.errno k₁ e).store rfl

theorem exists_chain (h : Popped k t y k₁) (hx : k.cap x ≠ .null) :
    ∃ a b, a ++ x :: b ∈ k.chains := by
  rw [← h.chains]
  exact h.inv.exists_chain (h.cap ▸ hx)

/-- The slot goes back to the free list. -/
theorem pushBack (h : Popped k t y k₁) {Q : Unit → Kernel → Prop}
    (hQ : ∀ k', StoreInv k' ∅ → k'.store = k.store → Q () k') :
    wp (pushFreeSlots t y) (.debug cfg) Q E k₁ := by
  rw [wp_pushFreeSlots (Kernel.owner_slotTask h.owner) (h.inv.inUse_of_owner h.owner)]
  obtain ⟨hinv, hstore⟩ := h.inv.freed_held h.owner rfl
  rw [Set.sdiff_eq_empty.mpr Set.Subset.rfl] at hinv
  exact hQ _ hinv (hstore.trans h.store)

end Popped

theorem StoreInv.popped_spec (h : StoreInv k ∅) (hu : (k.tasks t).state ≠ .unused)
    (hs : (k.tasks t).freeSlots = some s) : Popped k t s (k.popped t s) where
  inv := by simpa using h.popped hu hs
  store := by
    refine store_eq rfl (h.popped_chains hu hs) rfl (fun t' => ?_) (fun t' => ?_) rfl rfl
    · rw [Kernel.popped_state]
    · by_cases ht : t' = t <;> simp [Kernel.popped, upd_apply, ht]
  owner := (h.of_freeSlots hu hs).1
  tasks t' := by by_cases ht : t' = t <;> simp [Kernel.popped, upd_apply, ht]

theorem wp_pop {Q : Option SlotPtr → Kernel → Prop} (h : StoreInv k ∅)
    (hu : (k.tasks t).state ≠ .unused) (hnone : ∀ e, Q none { k with errno := e })
    (hsome : ∀ s k₁, Popped k t s k₁ → Q (some s) k₁) :
    wp (popFreeSlots t) (.debug cfg) Q E k := by
  rw [wp_popFreeSlots h hu]
  cases hs : (k.tasks t).freeSlots with
  | none => exact hnone _
  | some s => exact hsome s _ (h.popped_spec hu hs)

theorem wp_insertCap {Q : Option SlotPtr → Kernel → Prop} (h : StoreInv k ∅)
    (hnone : ∀ e, Q none { k with errno := e })
    (hsome : ∀ s k₁, Popped k t s k₁ → Q (some s) (k₁.setCap s c)) :
    wp (insertCap t c) (.debug cfg) Q E k := by
  unfold insertCap
  rw [wp_bind, wp_get, wp_ite]
  split
  · exact hnone _
  · rename_i hstate
    rw [wp_bind]
    refine wp_pop h (fun hu => hstate (Or.inl hu)) (fun e => ?_) fun s k₁ hs => ?_
    · exact hnone _
    · exact hsome s k₁ hs

/-! ### A capability that comes from another one -/

namespace Popped

variable (h : Popped k t y k₁) (hc : c ≠ .null)

include h hc

theorem fill : StoreInv (k₁.setCap y c) ∅ := by
  have hfill := h.inv.fill rfl hc (by simp [h.owner])
  rwa [Set.sdiff_eq_empty.mpr Set.Subset.rfl] at hfill

theorem fill_chains : (k₁.setCap y c).chains = rewrite k.chains y [y] := by
  rw [h.inv.fill_chains rfl hc, h.chains]

theorem mem_fill_chains : [y] ∈ (k₁.setCap y c).chains := by
  rw [h.fill_chains hc]
  exact new_mem_rewrite (by simp)

theorem fill_store : (k₁.setCap y c).store
    = { k.store with cap := upd k.cap y c, chains := rewrite k.chains y [y] } := by
  rw [← h.store, ← h.cap, ← h.fill_chains hc, ← Kernel.setCap_cap]
  rfl

theorem mem_fill_chains_of (hl : a ++ x :: b ∈ k.chains) :
    a ++ x :: b ∈ (k₁.setCap y c).chains ∧ y ∉ a ++ x :: b := by
  have hy : y ∉ a ++ x :: b := chains_fresh h.null _ hl
  rw [h.fill_chains hc]
  exact ⟨Or.inl ⟨hl, hy, by simpa using hy⟩, hy⟩

omit hc in
theorem ne (hx : k.cap x ≠ .null) : x ≠ y := fun heq => hx (heq ▸ h.null)

/-- The slot `y` gets the capability `c` and goes behind `x`, which gets `c'`. -/
theorem wp_derive (hE : cfg.loopBound = 0 → ∀ k', E .diverged k') (hc' : c' ≠ .null) (hl : a ++ x :: b ∈ k.chains)
    {Q : Unit → Kernel → Prop}
    (hQ : ∀ k', StoreInv k' ∅ → k'.store = k.store.derive x y a b c c' → Q () k') :
    wp (insertAfter x y) (.debug cfg) Q E ((k₁.setCap y c).setCap x c') := by
  have hx : k.cap x ≠ .null := hl.2.2 x (by simp)
  have hxy : x ≠ y := h.ne hx
  obtain ⟨hl', hyl⟩ := h.mem_fill_chains_of hc hl
  have hx' : (k₁.setCap y c).cap x ≠ .null := by
    rw [Kernel.setCap_cap, upd_ne _ _ hxy, h.cap]
    exact hx
  have hinv := (h.fill hc).update hx' hc'
  have hchains : ((k₁.setCap y c).setCap x c').chains = (k₁.setCap y c).chains :=
    update_chains hx' hc'
  have hy' : [y] ∈ ((k₁.setCap y c).setCap x c').chains := hchains ▸ h.mem_fill_chains hc
  rw [← hchains] at hl'
  refine wp_insertAfter hE hinv hy' (hQ _ (hinv.insertAfter hl' hy' hxy) ?_)
  generalize hk' : ((k₁.setCap y c).setCap x c').setLinks
    (((k₁.setCap y c).setCap x c').links.insertAfter x y y) = k'
  have hlist := hinv.insertAfter_chains hl' hy' hyl
  rw [hchains, h.fill_chains hc, rewrite_rewrite (by simp) (by simp), hk'] at hlist
  have hcap : k'.cap = upd (upd k.cap y c) x c' := by
    rw [← hk', Kernel.setLinks_cap, Kernel.setCap_cap, Kernel.setCap_cap, h.cap]
  have hstore : k'.store = { k₁.store with cap := k'.cap, chains := k'.chains } := by
    rw [← hk']
    rfl
  rw [hstore, hlist, hcap, h.store]
  rfl

/-- The slot `y` gets the capability `c` and the place of `x`, which is given back. -/
theorem wp_move {t' : TaskPtr} (ht : k.slotTask x = some t') (hl : a ++ x :: b ∈ k.chains)
    {Q : Unit → Kernel → Prop}
    (hQ : ∀ k', StoreInv k' ∅ → k'.store = { k.store with
      cap := upd (upd k.cap y c) x .null, chains := rewrite k.chains x (a ++ y :: b) } →
      Q () k') :
    wp (replace y x) (.debug cfg)
      (fun _ k₂ => wp (pushFreeSlots t' x) (.debug cfg) Q E k₂) E (k₁.setCap y c) := by
  have hx : k.cap x ≠ .null := hl.2.2 x (by simp)
  obtain ⟨hl', hyl⟩ := h.mem_fill_chains_of hc hl
  have hy := h.mem_fill_chains hc
  have hxcap : (k₁.setCap y c).cap x ≠ .null := hl'.2.2 x (by simp)
  -- `y` is filled and takes the place of `x`. Then `x`, which is alone, is freed.
  refine wp_replace (h.fill hc) hl' hy ?_
  have hinv := (h.fill hc).replace hl' hy hyl
  have hchains := (h.fill hc).replace_chains hl' hy hyl
  generalize hk₂ : (k₁.setCap y c).setLinks ((k₁.setCap y c).links.replace y x) = k₂ at *
  have hcap : k₂.cap = upd k.cap y c := by
    rw [← hk₂, Kernel.setLinks_cap, Kernel.setCap_cap, h.cap]
  have hx₂ : k₂.cap x ≠ .null := by
    rw [hcap, upd_ne _ _ (h.ne hx)]
    exact hx
  have hspace : ∀ p, (k₂.capSpaces p).task = (k.capSpaces p).task := by
    intro p
    rw [← hk₂]
    exact congrFun (congrArg CapStore.space h.store) p
  obtain ⟨o, ho⟩ := hinv.owner_of_cap hx₂
  obtain rfl : o = t' := by
    have hslot := Kernel.owner_slotTask ho
    unfold Kernel.slotTask at hslot ht
    rw [hspace, ht] at hslot
    exact (Option.some.inj hslot).symm
  rw [wp_pushFreeSlots (Kernel.owner_slotTask ho) (hinv.inUse_of_owner ho)]
  refine hQ _ ?_ ?_
  · have hfreed := hinv.freed ho (Or.inl hx₂)
    rwa [Set.empty_sdiff] at hfreed
  · have hxx : [x] ∈ k₂.chains := by
      rw [hchains]
      exact new_mem_rewrite (by simp)
    have hxab : x ∉ a ++ y :: b := by
      have hnd := hl.2.1.nodup
      rw [List.nodup_middle, List.nodup_cons] at hnd
      have hne := h.ne hx
      simp only [List.mem_append, List.mem_cons, not_or] at hnd ⊢
      exact ⟨hnd.1.1, hne, hnd.1.2⟩
    have hfresh : Fresh (rewrite k.chains x (a ++ y :: b)) x := by
      rintro l (⟨-, hxl, -⟩ | ⟨rfl, -⟩)
      · exact hxl
      · exact hxab
    -- Taking `x` off its list of one slot leaves what the move says.
    have hlist : (k₂.freed o x).chains = rewrite k.chains x (a ++ y :: b) := by
      calc (k₂.freed o x).chains
          = rewrite k₂.chains x [] := hinv.freed_chains (a := []) (b := []) ho hx₂ hxx
        _ = rewrite (rewrite (k₁.setCap y c).chains x (a ++ y :: b)) x [] := by
          rw [hchains, rewrite_rewrite (Or.inl rfl) (by simp)]
        _ = rewrite (rewrite k.chains x (a ++ y :: b)) x [] := by
          rw [h.fill_chains hc, rewrite_rewrite (y := y) (by simp) (by simp)]
        _ = rewrite k.chains x (a ++ y :: b) := rewrite_nil hfresh
    have hstore : (k₂.freed o x).store
        = { k₂.store with cap := (k₂.freed o x).cap, chains := (k₂.freed o x).chains } := by
      unfold Kernel.store
      congr 1
      funext t''
      by_cases htt : t'' = o <;> simp [Kernel.freed, upd_apply, htt]
    have hstore₂ : k₂.store = { k₁.store with cap := k₂.cap, chains := k₂.chains } := by
      rw [← hk₂]
      rfl
    rw [hstore, hstore₂, hlist, Kernel.freed_cap, hcap, h.store]

end Popped

/-! ### The operations -/

/-- A call that answers with a slot made the move `act` for it, and nothing if it failed. -/
def Answers (k : Kernel) (act : SlotPtr → Act) : Option SlotPtr → Kernel → Prop
  | none, k' => Does k [] k'
  | some y, k' => Does k [act y] k'

/-- The postcondition of stops of a program that keeps the processor. -/
def NoSwitch : Stop → Kernel → Prop := fun e _ => e ≠ .switched

theorem noSwitch_fatal : Fatal NoSwitch := fun _ _ h => h

theorem noSwitch_diverged : cfg.loopBound = 0 → ∀ k', NoSwitch .diverged k' := fun _ _ => nofun

theorem does_errno (h : StoreInv k ∅) (e : SysError) : Does k [] { k with errno := e } :=
  (CapFrame.errno k e).does h

/-! ### Reading a capability -/

theorem wp_memoryCap {env : Env} {m : MemoryCap} {Q : MemoryCap → Kernel → Prop}
    (hs : k.cap s = .memory m) (h : Q m k) : wp (memoryCap s) env Q E k := by
  unfold memoryCap
  rw [wp_bind, wp_get, hs]
  exact h

section Readers

variable {env : Env} (hE : Fatal E)

include hE

theorem wp_readTask {Q : TaskCap → Kernel → Prop} (h : ∀ c, k.cap s = .task c → Q c k) :
    wp (taskCap s) env Q E k := by
  unfold taskCap
  rw [wp_bind, wp_get]
  split
  · exact h _ ‹_›
  · exact hE _ _ (by decide)

theorem wp_readEndpoint {Q : EndpointCap → Kernel → Prop}
    (h : ∀ c, k.cap s = .endpoint c → Q c k) : wp (endpointCap s) env Q E k := by
  unfold endpointCap
  rw [wp_bind, wp_get]
  split
  · exact h _ ‹_›
  · exact hE _ _ (by decide)

theorem wp_readPageTable {Q : PageTableCap → Kernel → Prop}
    (h : ∀ c, k.cap s = .pageTable c → Q c k) : wp (pageTableCap s) env Q E k := by
  unfold pageTableCap
  rw [wp_bind, wp_get]
  split
  · exact h _ ‹_›
  · exact hE _ _ (by decide)

theorem wp_readVirtPage {Q : VirtPageCap → Kernel → Prop}
    (h : ∀ c, k.cap s = .virtPage c → Q c k) : wp (virtPageCap s) env Q E k := by
  unfold virtPageCap
  rw [wp_bind, wp_get]
  split
  · exact h _ ‹_›
  · exact hE _ _ (by decide)

theorem wp_readCapSpace {Q : CapSpaceCap → Kernel → Prop}
    (h : ∀ c, k.cap s = .capSpace c → Q c k) : wp (capSpaceCap s) env Q E k := by
  unfold capSpaceCap
  rw [wp_bind, wp_get]
  split
  · exact h _ ‹_›
  · exact hE _ _ (by decide)

theorem wp_readId {Q : IdCap → Kernel → Prop} (h : ∀ c, k.cap s = .id c → Q c k) :
    wp (idCap s) env Q E k := by
  unfold idCap
  rw [wp_bind, wp_get]
  split
  · exact h _ ‹_›
  · exact hE _ _ (by decide)

end Readers

theorem names_of_not_fixed (h : ¬ isFixed c) : c.Names := by
  cases c <;> simp_all [isFixed, getCapType, Capability.Names]

theorem wp_delegateCap (h : StoreInv k ∅) :
    wp (delegateCap t (some x)) (.debug cfg) (Answers k (.delegate x)) NoSwitch k := by
  unfold delegateCap
  simp only [wp_bind, wp_deref, wp_get, wp_ite]
  split
  · rename_i srcTask hsrc
    split
    · exact does_errno h _
    · rename_i hfixed
      have hnames := names_of_not_fixed hfixed
      split
      · exact does_errno h _
      · split
        · exact does_errno h _
        · obtain ⟨a, b, hl⟩ := h.exists_chain hnames.1
          refine wp_insertCap h (fun e => does_errno h e) fun y k₁ hy => ?_
          simp only [wp_bind, wp_modify]
          refine hy.wp_derive hnames.1 noSwitch_diverged (by simp) hl fun k' hinv hstore => ?_
          exact ⟨hinv, hstore ▸ .single (.delegate hnames hy.null hl)⟩
  · exact Stop.noConfusion

theorem wp_transferCap (h : StoreInv k ∅) :
    wp (transferCap t (some x)) (.debug cfg) (Answers k (.move x)) NoSwitch k := by
  unfold transferCap
  simp only [wp_bind, wp_deref, wp_get, wp_kassert, wp_ite, ne_eq, reduceCtorEq, not_false_eq_true,
    if_true]
  split
  · rename_i srcTask hsrc
    split
    · exact does_errno h _
    · rename_i hfixed
      have hnames := names_of_not_fixed hfixed
      split
      · exact does_errno h _
      · split
        · exact does_errno h _
        · obtain ⟨a, b, hl⟩ := h.exists_chain hnames.1
          refine wp_insertCap h (fun e => does_errno h e) fun y k₁ hy => ?_
          simp only [wp_bind, wp_pure]
          refine hy.wp_move hnames.1 hsrc hl fun k' hinv hstore => ?_
          exact ⟨hinv, hstore ▸ .single (.move hnames hy.null hl)⟩
  · exact Stop.noConfusion

/-- `copy_cap` of a task or an endpoint. -/
theorem wp_copyLinked (h : StoreInv k ∅) (hx : (k.cap x).Linked) :
    wp (copyLinked t x) (.debug cfg)
      (fun y k' => ∃ z, y = some z ∧ Does k [.copy x z] k') NoSwitch k := by
  have hnull : k.cap x ≠ .null := by
    intro heq
    rw [heq] at hx
    exact hx
  obtain ⟨a, b, hl⟩ := h.exists_chain hnull
  unfold copyLinked
  simp only [wp_bind, wp_get]
  refine wp_insertCap h (fun e => ?_) fun y k₁ hy => ?_
  · simp [NoSwitch]
  · simp only [wp_kassert, ne_eq, reduceCtorEq, not_false_eq_true, if_true, wp_deref, wp_pure]
    have hxc : (k₁.setCap y (k.cap x)).cap x = k.cap x := by
      rw [Kernel.setCap_cap, upd_ne _ _ (hy.ne hnull), hy.cap]
    rw [← Kernel.setCap_self (k₁.setCap y (k.cap x)) x, hxc]
    refine hy.wp_derive hnull noSwitch_diverged hnull hl fun k' hinv hstore => ?_
    exact ⟨y, rfl, hinv, hstore ▸ .single (.copy hx hy.null hl)⟩

/-- A slot that is filled without a link is a list of its own. -/
theorem Popped.newRoot {i : IdCap} (h : Popped k t y k₁) :
    Does k [.newRoot y] (k₁.setCap y (.id i)) := by
  refine ⟨h.fill (by simp), ?_⟩
  rw [h.fill_store (by simp)]
  exact .single (.newRoot h.null)

/-- Identifiers are copied without a link to their source. -/
def copyAct (c : Capability) (src dst : SlotPtr) : Act :=
  match c with
  | .id _ => .newRoot dst
  | _ => .copy src dst

theorem wp_copyCap (h : StoreInv k ∅) :
    wp (copyCap x) (.debug cfg) (Answers k (copyAct (k.cap x) x)) NoSwitch k := by
  unfold copyCap
  simp only [wp_bind, wp_deref, wp_get]
  split
  · rename_i srcTask hsrc
    cases hc : k.cap x with
    | task cap =>
      simp only [getCapType, wp_bind]
      refine wp_mono (wp_copyLinked h (by rw [hc]; trivial)) ?_ fun _ _ h => h
      rintro _ k' ⟨y, rfl, hdoes⟩
      exact hdoes
    | endpoint cap =>
      simp only [getCapType, wp_bind]
      refine wp_mono (wp_copyLinked h (by rw [hc]; trivial)) ?_ fun _ _ h => h
      rintro _ k' ⟨y, rfl, hdoes⟩
      exact hdoes
    | id i =>
      simp only [getCapType, wp_bind, wp_get, hc]
      refine wp_insertCap h (fun e => ?_) fun y k₁ hy => ?_
      · exact does_errno h _
      · exact hy.newRoot
    | _ => exact does_errno h _
  · exact Stop.noConfusion

theorem wp_idCapCreate (h : StoreInv k ∅) (hu : (k.tasks k.currentTask).state ≠ .unused) :
    wp idCapCreate (.debug cfg) (Answers k .newRoot) NoSwitch k := by
  unfold idCapCreate
  simp only [wp_bind, wp_get]
  refine wp_pop h hu (fun e => does_errno h e) fun y k₁ hy => ?_
  unfold createIdObject checkUnused makeUniqueIdCap makeIdCap storeCap
  simp only [wp_bind, wp_get, wp_kassert, wp_modify, wp_pure]
  have hid : StoreFrame k₁ { k₁ with nextId := succId k₁.nextId } :=
    ⟨rfl, rfl, fun _ => rfl, fun _ => rfl, fun _ => Iff.rfl⟩
  split
  · split
    · exact (hy.frame hid rfl rfl).newRoot
    · exact Stop.noConfusion
  · exact Stop.noConfusion

end Caprese
