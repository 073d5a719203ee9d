import Caprese.Store.Create

/-!
# `Caprese.Store.Attach`: capability spaces and tables enter a task

`insert_cap_space` of `cap_space.cpp` enters a space into the tables of a task and gives all
its slots to the task's free list; `extend_cap_space` enters a table for more spaces. A space
that is attached nowhere has no slot in use, so that its slots can be freed one after
another. The walks down to an entry are described by `Kernel.descend`.
-/

set_option autoImplicit false

namespace Caprese

open Lib Prog Chains

/-! ### Walks -/

namespace Kernel

variable (k : Kernel) (va : Nat)

/-- The table that the entries for `va` lead to. -/
def descend : List Nat → TablePtr → TablePtr
  | [], table => table
  | level :: levels, table =>
    descend levels (k.pte table (getPageTableIndex va level)).getNextPage

/-- All entries on the way are enabled. -/
def Enabled : List Nat → TablePtr → Prop
  | [], _ => True
  | level :: levels, table =>
    (k.pte table (getPageTableIndex va level)).isEnabled = true ∧
      Enabled levels (k.pte table (getPageTableIndex va level)).getNextPage

end Kernel

variable {cfg : Config} {k k' : Kernel} {t : TaskPtr} {s : SlotPtr} {p : SpacePtr} {n : Nat}

theorem wp_pageTableWalk {va level : Nat} {Q : Nat → Kernel → Prop}
    (h : Q (getPageTableIndex va level) k) :
    wp (pageTableWalk va level) (.debug cfg) Q NoSwitch k := by
  unfold pageTableWalk
  simp only [wp_bind, wp_kassert]
  split
  · split
    · exact h
    · exact Stop.noConfusion
  · exact Stop.noConfusion

theorem wp_walkEnabled {va : Nat} (levels : List Nat) (table : TablePtr)
    {Q : TablePtr → Kernel → Prop}
    (h : k.Enabled va levels table → Q (k.descend va levels table) k) :
    wp (walkEnabled va levels table) (.debug cfg) Q NoSwitch k := by
  induction levels generalizing table with
  | nil => exact h trivial
  | cons level levels ih =>
    unfold walkEnabled
    rw [wp_bind]
    refine wp_pageTableWalk ?_
    simp only [wp_bind, wp_get, wp_kassert]
    split
    · rename_i henabled
      exact ih _ fun hrest => h ⟨henabled, hrest⟩
    · exact Stop.noConfusion

theorem Pte.isDisabled_iff {e : Pte} : e.isDisabled = true ↔ e.isEnabled = false := by
  unfold isDisabled isEnabled
  cases e.v <;> simp

/-! ### The slots of a new space -/

theorem mem_spaceSlots :
    s ∈ spaceSlots p n ↔ s.space = p ∧ s.index < NUM_SLOTS ∧ ¬ (s.index = 0 ∧ n = 0) := by
  obtain ⟨q, i⟩ := s
  unfold spaceSlots
  simp only [List.mem_map, List.mem_reverse, SlotPtr.mk.injEq]
  constructor
  · rintro ⟨j, hj, rfl, rfl⟩
    split at hj
    · rename_i hn
      rw [List.mem_range'_1] at hj
      exact ⟨rfl, by omega, by omega⟩
    · rename_i hn
      exact ⟨rfl, List.mem_range.mp hj, fun hzero => hn hzero.2⟩
  · rintro ⟨rfl, hlt, hne⟩
    refine ⟨i, ?_, rfl, rfl⟩
    split
    · rename_i hn
      rw [List.mem_range'_1]
      have hpos : i ≠ 0 := fun hzero => hne ⟨hzero, hn⟩
      omega
    · exact List.mem_range.mpr hlt

theorem spaceSlots_nodup : (spaceSlots p n).Nodup := by
  unfold spaceSlots
  refine List.Nodup.map (fun i j hij => (SlotPtr.mk.injEq _ _ _ _ ▸ hij).2) ?_
  rw [List.nodup_reverse]
  split
  · exact List.nodup_range'
  · exact List.nodup_range

theorem owner_setMetaInfo : (k.setMetaInfo p ⟨some t, n⟩).owner s
    = if s ∈ spaceSlots p n then some t else if s.space = p then none else k.owner s := by
  unfold Kernel.owner Kernel.setMetaInfo
  simp only [mem_spaceSlots]
  by_cases hs : s.space = p
  · simp [hs]
  · simp [hs, upd_ne]

/-- The task of a space is set. Its slots are free, but not on the free list yet. -/
theorem StoreInv.setMetaInfo (h : StoreInv k ∅) (hp : (k.capSpaces p).task = none)
    (hu : (k.tasks t).state ≠ .unused) :
    StoreInv (k.setMetaInfo p ⟨some t, n⟩) {s | s ∈ spaceSlots p n} := by
  have hisolated : ∀ s, s.space = p → k.cap s = .null ∧ k.links.IsList [s] := by
    intro s hs
    have hslot := h.detached hp hs
    refine ⟨?_, Links.isList_singleton.mpr ?_⟩
    · show (k.slots s).cap = .null
      rw [hslot]
    · show (k.slots s).prev = none ∧ (k.slots s).next = none
      rw [hslot]
      exact ⟨rfl, rfl⟩
  refine ⟨h.links, fun s hs => ?_, fun s hs => ?_, fun q t' hq => ?_, fun t' ht' => ?_⟩
  · rw [owner_setMetaInfo] at hs
    split at hs
    · exact absurd hs (by simp)
    · split at hs
      · exact hisolated s ‹_›
      · exact h.outside s hs
  · exact hisolated s (mem_spaceSlots.mp hs).1
  · change (upd k.capSpaces p _ q).task = some t' at hq
    by_cases hqp : q = p
    · rw [hqp, upd_same] at hq
      exact (Option.some.inj hq) ▸ hu
    · rw [upd_ne _ _ hqp] at hq
      exact h.inUse q t' hq
  · obtain ⟨l, hl⟩ := h.free t' ht'
    refine ⟨l, hl.list, hl.head, hl.count, fun s => ?_⟩
    show s ∈ l ↔ (k.setMetaInfo p ⟨some t, n⟩).owner s = some t' ∧ k.cap s = .null ∧
      s ∉ {s | s ∈ spaceSlots p n}
    rw [owner_setMetaInfo, hl.mem s]
    by_cases hin : s ∈ spaceSlots p n
    · have hown : k.owner s = none := by
        unfold Kernel.owner
        rw [(mem_spaceSlots.mp hin).1, hp, ite_self]
      simp [hin, hown]
    · by_cases hs : s.space = p
      · have hown : k.owner s = none := by
          unfold Kernel.owner
          rw [hs, hp, ite_self]
        simp [hin, hs, hown]
      · simp [hin, hs]

/-- The loop that frees the slots of a space. -/
theorem wp_freeSlots {l : List SlotPtr} {Q : Unit → Kernel → Prop}
    (h : StoreInv k {s | s ∈ l}) (hnd : l.Nodup) (hown : ∀ s ∈ l, k.owner s = some t)
    (hQ : ∀ k', StoreInv k' ∅ → k'.store = k.store → Q () k') :
    wp (forM (pushFreeSlots t) l) (.debug cfg) Q NoSwitch k := by
  induction l generalizing k with
  | nil =>
    refine hQ k ?_ rfl
    simpa using h
  | cons s l ih =>
    have hs : k.owner s = some t := hown s List.mem_cons_self
    obtain ⟨hsl, hnd⟩ := List.nodup_cons.mp hnd
    obtain ⟨hinv, hstore⟩ := h.freed_held hs List.mem_cons_self
    show wp (pushFreeSlots t s >>= _) _ _ _ _
    rw [wp_bind, wp_pushFreeSlots (Kernel.owner_slotTask hs) (h.inUse_of_owner hs)]
    have hheld : {z | z ∈ s :: l} \ {s} = {z | z ∈ l} := by
      ext z
      simp only [Set.mem_sdiff, Set.mem_ofPred_eq, List.mem_cons, Set.mem_singleton_iff]
      constructor
      · rintro ⟨rfl | hz, hne⟩
        · exact absurd rfl hne
        · exact hz
      · intro hz
        exact ⟨Or.inr hz, fun heq => hsl (heq ▸ hz)⟩
    rw [hheld] at hinv
    exact ih hinv hnd (fun z hz => hown z (List.mem_cons_of_mem s hz))
      fun k' hk' hs' => hQ k' hk' (hs'.trans hstore)

/-! ### Programs that keep the processor -/

theorem avoids_pageTableWalk {e : Stop} [Unchecked e] (va level : Nat) :
    Avoids e (pageTableWalk va level) :=
  avoids_bind (avoids_kassert _) fun _ => avoids_bind (avoids_kassert _) fun _ => avoids_pure _

theorem avoids_walkEnabled (va : Nat) (levels : List Nat) (table : TablePtr) :
    Avoids .switched (walkEnabled va levels table) := by
  induction levels generalizing table with
  | nil => exact avoids_pure _
  | cons level levels ih =>
    refine avoids_bind (avoids_pageTableWalk va level) fun _ => avoids_bind avoids_get fun _ => ?_
    exact avoids_bind (avoids_kassert _) fun _ => avoids_bind avoids_get fun _ => ih _

theorem avoids_checkSlotTask (slot : SlotPtr) : Avoids .switched (checkSlotTask slot) :=
  avoids_bind avoids_get fun _ => avoids_bind (avoids_deref _) fun _ => avoids_bind avoids_get
    fun _ => avoids_ite (avoids_stop (by decide)) (avoids_pure _)

theorem avoids_insertBefore (this slot : SlotPtr) : Avoids .switched (insertBefore this slot) :=
  avoids_bind avoids_get fun _ => avoids_bind (avoids_kassert _) fun _ =>
    avoids_bind (avoids_checkSlotTask slot) fun _ => avoids_modify _

theorem avoids_pushFreeSlots (task : TaskPtr) (slot : SlotPtr) :
    Avoids .switched (pushFreeSlots task slot) := by
  unfold pushFreeSlots eraseThis
  refine avoids_bind avoids_get fun _ => avoids_bind (avoids_kassert _) fun _ => avoids_bind ?_ ?_
  · exact avoids_bind (avoids_checkSlotTask slot) fun _ => avoids_bind avoids_get fun _ =>
      avoids_bind (avoids_modify _) fun _ => avoids_pure _
  · refine fun _ => avoids_bind (avoids_modify _) fun _ => avoids_bind avoids_get fun k => ?_
    cases (k.tasks task).freeSlots with
    | none => exact avoids_modify _
    | some head => exact avoids_bind (avoids_insertBefore _ _) fun _ => avoids_modify _

/-- `insert_cap_space` of any space: it fails before it changes anything. -/
theorem wp_insertCapSpace_any {env : Env} {Q : Bool → Kernel → Prop}
    (hfalse : ∀ e, Q false { k with errno := e }) (htrue : ∀ k', Q true k') :
    wp (insertCapSpace t p) env Q NoSwitch k := by
  unfold insertCapSpace
  rw [wp_bind, wp_get, wp_ite]
  split
  · exact hfalse _
  · rw [wp_bind, wp_get, wp_bind]
    refine (avoids_walkEnabled _ _ _).any fun _ k₁ => ?_
    rw [wp_bind]
    refine (avoids_pageTableWalk _ _).any fun _ k₂ => ?_
    rw [wp_bind, wp_get, wp_bind]
    refine (avoids_kassert _).any fun _ k₃ => ?_
    simp only [wp_bind, wp_modify, wp_ite]
    split <;>
    · exact (avoids_forM (avoids_pushFreeSlots t) _).any fun _ k₄ => htrue _

theorem avoids_insertCapSpace (task : TaskPtr) (p : SpacePtr) :
    Avoids .switched (insertCapSpace task p) := fun _ _ =>
  wp_insertCapSpace_any (fun _ => trivial) fun _ => trivial

theorem avoids_extendCapSpace (task : TaskPtr) (page : TablePtr) :
    Avoids .switched (extendCapSpace task page) := by
  unfold extendCapSpace
  refine avoids_bind avoids_get fun _ => avoids_ite ?_ ?_
  · exact avoids_bind (avoids_modify _) fun _ => avoids_pure _
  · refine avoids_bind avoids_get fun _ => avoids_bind (avoids_walkEnabled _ _ _) fun _ => ?_
    refine avoids_bind (avoids_pageTableWalk _ _) fun _ => avoids_bind avoids_get fun _ => ?_
    refine avoids_bind (avoids_kassert _) fun _ => avoids_bind (avoids_modify _) fun _ => ?_
    exact avoids_bind (avoids_modify _) fun _ => avoids_pure _

/-! ### `insert_cap_space` -/

/-- The space `p` becomes number `n` of the spaces of `t`, through an entry of `table`. -/
def CapStore.attach (S : CapStore) (t : TaskPtr) (n : Nat) (p : SpacePtr) (table : TablePtr)
    (index : Nat) : CapStore :=
  { S with
    tables := setEntry S.tables table index ((S.tables table index).fill .capSpace p)
    space := upd S.space p (some t)
    trace := S.trace ++ [.attach t n p] }

/-- Where the capability space number `n` of a task lies. -/
def capSpaceAddr (n : Nat) : Nat := CONFIG_CAPABILITY_SPACE_BASE + PAGE_SIZE * n

/-- The table for that address. -/
def Kernel.capSpaceTable (k : Kernel) (root : TablePtr) (n : Nat) : TablePtr :=
  k.descend (capSpaceAddr n) [MAX_PAGE_TABLE_LEVEL, MEGA_PAGE_TABLE_LEVEL] root

theorem StoreInv.setCapCount {held : Set SlotPtr} (h : StoreInv k held) (count : CapCount) :
    StoreInv (k.setTask t { k.tasks t with capCount := count }) held ∧
      (k.setTask t { k.tasks t with capCount := count }).store = k.store := by
  have hf : StoreFrame k (k.setTask t { k.tasks t with capCount := count }) := by
    refine ⟨rfl, rfl, fun t' => ?_, fun t' => ?_, fun t' => ?_⟩ <;>
    · rw [Kernel.setTask_tasks, upd_apply]
      split
      · rename_i ht
        simp [ht]
      · simp
  refine ⟨hf.storeInv h, store_eq hf.cap hf.chains rfl hf.unused (fun t' => ?_) rfl rfl⟩
  rw [Kernel.setTask_tasks, upd_apply]
  split
  · rename_i ht
    rw [ht]
  · rfl

theorem wp_insertCapSpace (h : StoreInv k ∅) (hu : (k.tasks t).state ≠ .unused)
    (hp : (k.capSpaces p).task = none) (hn : (k.tasks t).capCount.numCapSpace = n)
    {Q : Bool → Kernel → Prop} (hfalse : ∀ e, Q false { k with errno := e })
    (htrue : ∀ k', k.Enabled (capSpaceAddr n) [MAX_PAGE_TABLE_LEVEL, MEGA_PAGE_TABLE_LEVEL]
        (k.tasks t).rootPageTable →
      (k.pte (k.capSpaceTable (k.tasks t).rootPageTable n)
        (getPageTableIndex (capSpaceAddr n) KILO_PAGE_TABLE_LEVEL)).isEnabled = false →
      StoreInv k' ∅ →
      k'.store = k.store.attach t n p (k.capSpaceTable (k.tasks t).rootPageTable n)
        (getPageTableIndex (capSpaceAddr n) KILO_PAGE_TABLE_LEVEL) → Q true k') :
    wp (insertCapSpace t p) (.debug cfg) Q NoSwitch k := by
  unfold insertCapSpace
  rw [wp_bind, wp_get, wp_ite]
  split
  · exact hfalse _
  · simp only [hn]
    rw [wp_bind, wp_get, wp_bind]
    refine wp_walkEnabled _ _ fun henabled => ?_
    rw [wp_bind]
    refine wp_pageTableWalk ?_
    rw [wp_bind, wp_get, wp_bind, wp_kassert]
    split
    · rename_i hdisabled
      have hdisabled : (k.pte (k.capSpaceTable (k.tasks t).rootPageTable n)
          (getPageTableIndex (capSpaceAddr n) KILO_PAGE_TABLE_LEVEL)).isEnabled = false := by
        exact Pte.isDisabled_iff.mp hdisabled
      simp only [wp_bind, wp_modify, wp_ite]
      generalize hk₁ : k.setPte _ _ _ = k₁
      have hf : StoreFrame k k₁ := by
        rw [← hk₁]
        exact ⟨rfl, rfl, fun _ => rfl, fun _ => rfl, fun _ => Iff.rfl⟩
      have hp₁ : (k₁.capSpaces p).task = none := by rw [hf.capSpaces, hp]
      have hu₁ : (k₁.tasks t).state ≠ .unused := by rwa [ne_eq, hf.unused]
      -- The store to the reserved slot changes nothing, because it is empty.
      have hnoop : { k₁ with slots := upd k₁.slots ⟨p, 0⟩ ⟨.null, none, none⟩ } = k₁ := by
        have hslot : k₁.slots ⟨p, 0⟩ = ⟨.null, none, none⟩ :=
          (hf.storeInv h).detached hp₁ rfl
        rw [← hslot, upd_self]
      rw [hnoop, ite_self]
      have hinv : StoreInv ((k₁.setMetaInfo p ⟨some t, n⟩).record (.attach t n p))
          {s | s ∈ spaceSlots p n} := by
        have hr : StoreFrame (k₁.setMetaInfo p ⟨some t, n⟩)
            ((k₁.setMetaInfo p ⟨some t, n⟩).record (.attach t n p)) :=
          ⟨rfl, rfl, fun _ => rfl, fun _ => rfl, fun _ => Iff.rfl⟩
        exact hr.storeInv ((hf.storeInv h).setMetaInfo hp₁ hu₁)
      have hown : ∀ s ∈ spaceSlots p n,
          ((k₁.setMetaInfo p ⟨some t, n⟩).record (.attach t n p)).owner s = some t := by
        intro s hs
        exact owner_setMetaInfo.trans (if_pos hs)
      refine wp_freeSlots hinv spaceSlots_nodup hown fun k₂ hk₂ hstore => ?_
      obtain ⟨hinv', hstore'⟩ := hk₂.setCapCount (t := t)
        { (k₂.tasks t).capCount with
          numCapSpace := ((k₂.tasks t).capCount.numCapSpace + 1) % MAX_NUM_CAP_SPACE }
      refine htrue _ henabled hdisabled hinv' ?_
      rw [hstore', hstore, ← hk₁]
      unfold Kernel.store CapStore.attach
      congr 1
      funext q
      show (upd k.capSpaces p ⟨some t, n⟩ q).task = upd (fun q => (k.capSpaces q).task) p (some t) q
      simp only [upd_apply]
      split <;> rfl
    · exact Stop.noConfusion

/-! ### `extend_cap_space` -/

/-- Where the table number `n` for capability spaces goes. -/
def extensionAddr (n : Nat) : Nat :=
  CONFIG_CAPABILITY_SPACE_BASE + PAGE_SIZE * NUM_PAGE_TABLE_ENTRY * n

theorem wp_extendCapSpace {page : TablePtr} (h : StoreInv k ∅)
    (hn : (k.tasks t).capCount.numExtension = n) {Q : Option Nat → Kernel → Prop}
    (hnone : ∀ e, Q none { k with errno := e })
    (hsome : ∀ k' table index,
      table = k.descend (extensionAddr n) [GIGA_PAGE_TABLE_LEVEL] (k.tasks t).rootPageTable →
      index = getPageTableIndex (extensionAddr n) MEGA_PAGE_TABLE_LEVEL →
      k.Enabled (extensionAddr n) [GIGA_PAGE_TABLE_LEVEL] (k.tasks t).rootPageTable →
      (k.pte table index).isEnabled = false → StoreInv k' ∅ →
      k'.store = { k.store with
        tables := setEntry k.pageTables table index ((k.pte table index).fill .table page) } →
      (∀ t', (k'.tasks t').rootPageTable = (k.tasks t').rootPageTable) →
      (∀ t', (k'.tasks t').capCount.numCapSpace = (k.tasks t').capCount.numCapSpace) →
      Q (some (extensionAddr n)) k') :
    wp (extendCapSpace t page) (.debug cfg) Q NoSwitch k := by
  unfold extendCapSpace
  rw [wp_bind, wp_get, wp_ite]
  split
  · exact hnone _
  · simp only [hn]
    rw [wp_bind, wp_get, wp_bind]
    refine wp_walkEnabled _ _ fun henabled => ?_
    rw [wp_bind]
    refine wp_pageTableWalk ?_
    rw [wp_bind, wp_get, wp_bind, wp_kassert]
    split
    · rename_i hdisabled
      simp only [wp_bind, wp_modify, wp_pure]
      obtain ⟨hinv, hstore⟩ := (h.setPte _ _ _).setCapCount (t := t) _
      refine hsome _ _ _ rfl rfl henabled (Pte.isDisabled_iff.mp hdisabled) hinv hstore
        (fun t' => ?_) fun t' => ?_ <;>
      · rw [Kernel.setTask_tasks, upd_apply]
        split
        · rename_i ht
          rw [ht]
          rfl
        · rfl
    · exact Stop.noConfusion

/-! ### `lookup_cap` -/

namespace Kernel

variable (k : Kernel)

/-- The page that the entries for `va` lead to, if they are all enabled. -/
def findPage (va : Nat) : List Nat → TablePtr → Option PhysAddr
  | [], table => some table
  | level :: levels, table =>
    if (k.pte table (getPageTableIndex va level)).isDisabled then none
    else findPage va levels (k.pte table (getPageTableIndex va level)).getNextPage

/-- The slot that a descriptor of `task` stands for. -/
def findCap (task : TaskPtr) (capDesc : Nat) : Option SlotPtr :=
  if isDead (k.tasks task) ∨ capDesc ≥ (k.tasks task).capCount.numCapSpace * NUM_SLOTS then none
  else
    match k.findPage (capSpaceAddr (capDesc / NUM_SLOTS))
      [MAX_PAGE_TABLE_LEVEL, MEGA_PAGE_TABLE_LEVEL, KILO_PAGE_TABLE_LEVEL]
      (k.tasks task).rootPageTable with
    | none => none
    | some space =>
      if k.cap ⟨space, capDesc % NUM_SLOTS⟩ = .null then none
      else some ⟨space, capDesc % NUM_SLOTS⟩

end Kernel

theorem findPage_congr (h : k'.pageTables = k.pageTables) (va : Nat) (levels : List Nat)
    (table : TablePtr) : k'.findPage va levels table = k.findPage va levels table := by
  induction levels generalizing table with
  | nil => rfl
  | cons level levels ih =>
    unfold Kernel.findPage Kernel.pte
    rw [h, ih]

theorem findCap_congr (htables : k'.pageTables = k.pageTables) (hcap : k'.cap = k.cap)
    (hstate : (k'.tasks t).state = (k.tasks t).state)
    (hroot : (k'.tasks t).rootPageTable = (k.tasks t).rootPageTable)
    (hcount : (k'.tasks t).capCount = (k.tasks t).capCount) (capDesc : Nat) :
    k'.findCap t capDesc = k.findCap t capDesc := by
  have hdead : isDead (k'.tasks t) ↔ isDead (k.tasks t) := by
    unfold isDead
    rw [hstate]
  unfold Kernel.findCap
  simp only [hdead, hroot, hcount, hcap, findPage_congr htables]

theorem wp_walkMapped {va : Nat} (levels : List Nat) (table : TablePtr)
    {Q : Option PhysAddr → Kernel → Prop} (h : Q (k.findPage va levels table) k) :
    wp (walkMapped va levels table) (.debug cfg) Q NoSwitch k := by
  induction levels generalizing table with
  | nil => exact h
  | cons level levels ih =>
    unfold walkMapped
    rw [wp_bind]
    refine wp_pageTableWalk ?_
    unfold Kernel.findPage at h
    rw [wp_bind, wp_get, wp_ite]
    split
    · rename_i hdisabled
      rwa [if_pos hdisabled] at h
    · rename_i henabled
      rw [if_neg henabled] at h
      exact ih _ h

theorem wp_lookupCap {capDesc : Nat} {Q : Option SlotPtr → Kernel → Prop}
    (hsome : ∀ s, k.findCap t capDesc = some s → Q (some s) k)
    (hnone : ∀ e, Q none { k with errno := e }) :
    wp (lookupCap t capDesc) (.debug cfg) Q NoSwitch k := by
  unfold lookupCap
  rw [wp_bind, wp_get, wp_ite]
  split
  · exact hnone _
  · rename_i hdead
    rw [wp_ite]
    split
    · exact hnone _
    · rename_i hdesc
      rw [wp_bind]
      refine wp_walkMapped _ _ ?_
      have hfind : k.findCap t capDesc = _ := if_neg (not_or.mpr ⟨hdead, hdesc⟩)
      cases hpage : k.findPage (CONFIG_CAPABILITY_SPACE_BASE + PAGE_SIZE * (capDesc / NUM_SLOTS))
          [MAX_PAGE_TABLE_LEVEL, MEGA_PAGE_TABLE_LEVEL, KILO_PAGE_TABLE_LEVEL]
          (k.tasks t).rootPageTable with
      | none => exact hnone _
      | some space =>
        unfold capSpaceAddr at hfind
        simp only [hpage] at hfind
        simp only [wp_bind, wp_get, wp_ite, wp_setErrno, wp_pure]
        split
        · exact hnone _
        · rename_i hnull
          refine hsome _ ?_
          rw [hfind, if_neg]
          intro heq
          exact hnull (by rw [heq]; rfl)

end Caprese
