import Caprese.Kernel.Boot
import Caprese.Store.Run
import Mathlib.Data.List.Pairwise

/-!
# `Caprese.Store.Boot`: the first state

`setup` ends in a state in order. The capabilities of the root task are those of
`BootInfo.caps`, each of them alone in a derivation list, if the objects that the boot
information names lie apart (`BootInfo.WellFormed`).
-/

set_option autoImplicit false

namespace Caprese

open Lib Prog Chains

variable {cfg : Config} {k k' : Kernel} {t : TaskPtr} {s y : SlotPtr} {c : Capability}
  {S : CapStore} {cs : List Capability} {boot : BootInfo}

/-! ### The capabilities of the root task -/

/-- The range of addresses that a capability was made for. -/
def Capability.region : Capability → Region
  | .memory cap => ⟨cap.physAddr, cap.size⟩
  | .task cap => ⟨cap.task, PAGE_SIZE⟩
  | .endpoint cap => ⟨cap.endpoint, ENDPOINT_SIZE⟩
  | .pageTable cap => ⟨cap.table, PAGE_SIZE⟩
  | .virtPage cap => ⟨cap.physAddr, getPageSize cap.level⟩
  | .capSpace cap => ⟨cap.space, PAGE_SIZE⟩
  | _ => ⟨0, 0⟩

/-- Two regions that share no address. -/
def Region.Apart (r r' : Region) : Prop :=
  r.start + r.size ≤ r'.start ∨ r'.start + r'.size ≤ r.start

instance (r r' : Region) : Decidable (r.Apart r') := inferInstanceAs (Decidable (_ ∨ _))

def pageRegion (page : PhysAddr) : Region := ⟨page, PAGE_SIZE⟩

/-- A page of the root task, mapped with `flags` at `va`. -/
def rootPageCap (table : TablePtr) (flags : PteFlags) (va : Nat) (page : PhysAddr) : Capability :=
  .virtPage ⟨true, false, flags.readable, flags.writable, flags.executable, 0,
    getPageTableIndex va 0, page % CONFIG_MAX_PHYSICAL_ADDRESS, va, some table⟩

/-- The pages that a loop of `map_root_task` maps. -/
def rootPageCaps (table : TablePtr) (flags : PteFlags) (base start n : Nat) : List Capability :=
  (List.range n).map fun i =>
    rootPageCap table flags (base + PAGE_SIZE * i) (start + PAGE_SIZE * i)

def RootMapping.caps (mapping : RootMapping) (root : TablePtr) : List Capability :=
  .pageTable ⟨true, 1, mapping.base / getPageSize 2 * getPageSize 2 % CONFIG_MAX_VIRTUAL_ADDRESS,
    mapping.pageTable1, some root⟩ ::
  .pageTable ⟨true, 0, mapping.base / getPageSize 1 * getPageSize 1 % CONFIG_MAX_VIRTUAL_ADDRESS,
    mapping.pageTable0, some mapping.pageTable1⟩ ::
  rootPageCaps mapping.pageTable0 (.userPage true true mapping.executable) mapping.base
    mapping.region.start mapping.region.numPages

def MemoryRegion.cap (block : MemoryRegion) : Capability :=
  .memory ⟨block.device, block.size % CONFIG_MAX_PHYSICAL_ADDRESS,
    block.start % CONFIG_MAX_PHYSICAL_ADDRESS, 0⟩

namespace BootInfo

variable (boot : BootInfo)

/-- The tables of the root task itself. -/
def tableCaps : List Capability :=
  [.pageTable ⟨true, 2, 0, boot.rootPageTable, none⟩,
   .pageTable ⟨true, 0, CONFIG_CAPABILITY_SPACE_BASE, boot.capSpacePageTable0,
     some boot.capSpacePageTable1⟩,
   .pageTable ⟨true, 1, CONFIG_CAPABILITY_SPACE_BASE, boot.capSpacePageTable1,
     some boot.rootPageTable⟩]

/-- The capabilities that `setup` hands out, in this order. -/
def caps : List Capability :=
  [makeTaskCap boot.rootTask] ++
  (boot.capSpace :: boot.capSpaces).map (makeCapSpaceCap · true) ++
  boot.tableCaps ++
  boot.memories.map MemoryRegion.cap ++
  boot.payload.caps boot.rootPageTable ++
  boot.stack.caps boot.rootPageTable ++
  rootPageCaps boot.payload.pageTable0 (.userPage true false false)
    (boot.payload.base + boot.payload.region.size) boot.dtb.start boot.dtb.numPages

/-- The history of `setup`. -/
def attachEvents : List Event :=
  (boot.capSpace :: boot.capSpaces).zipIdx.map fun (space, index) =>
    .attach boot.rootTask index space

/-- The tables that the linker provides. -/
def tables : List TablePtr :=
  [boot.rootPageTable, boot.capSpacePageTable0, boot.capSpacePageTable1,
   boot.payload.pageTable0, boot.payload.pageTable1, boot.stack.pageTable0,
   boot.stack.pageTable1]

/-- What the linker and the device tree promise: what `setup` hands out and what the idle
task needs lie apart, and the tables and spaces are pages of physical memory. -/
structure WellFormed : Prop where
  apart : (pageRegion boot.idleTask :: pageRegion boot.idleRootPageTable ::
    boot.caps.map Capability.region).Pairwise Region.Apart
  tables : ∀ table ∈ boot.tables, PAGE_SIZE ∣ table ∧ table < CONFIG_MAX_PHYSICAL_ADDRESS

instance : Decidable boot.WellFormed :=
  decidable_of_iff (_ ∧ _) ⟨fun h => ⟨h.1, h.2⟩, fun h => ⟨h.apart, h.tables⟩⟩

end BootInfo

/-! ### Capabilities that come from nowhere -/

/-- The slot `y` gets the capability `c` and a list of its own. -/
def CapStore.addRoot (S : CapStore) (y : SlotPtr) (c : Capability) : CapStore :=
  { S with cap := upd S.cap y c, chains := rewrite S.chains y [y] }

theorem wp_insertRootCap (h : StoreInv k ∅) (hc : c ≠ .null) {Q : Unit → Kernel → Prop}
    (hQ : ∀ y k', k.cap y = .null → StoreInv k' ∅ → k'.store = k.store.addRoot y c → Q () k') :
    wp (insertRootCap t c) (.debug cfg) Q NoSwitch k := by
  unfold insertRootCap
  rw [wp_bind]
  refine wp_insertCap h (fun e => ?_) fun y k₁ hy => ?_
  · rw [wp_ite, if_pos rfl]
    exact Stop.noConfusion
  · rw [wp_ite, if_neg (by simp)]
    exact hQ y _ hy.null (hy.fill hc) (hy.fill_store hc)

/-- The capabilities of a store are `cs`, in slots that are all alone. -/
structure Rooted (S : CapStore) (cs : List Capability) : Prop where
  slots : ∃ slots : List SlotPtr, slots.Nodup ∧ slots.map S.cap = cs ∧
    S.chains = {l | ∃ s ∈ slots, l = [s]}
  names : ∀ c ∈ cs, c.Names

theorem Rooted.addRoot (h : Rooted S cs) (hy : S.cap y = .null) (hc : c.Names) :
    Rooted (S.addRoot y c) (cs ++ [c]) := by
  obtain ⟨⟨slots, hnodup, hcaps, hchains⟩, hnames⟩ := h
  have hne : ∀ s ∈ slots, s ≠ y := by
    rintro s hs rfl
    have hin : S.cap s ∈ cs := hcaps ▸ List.mem_map_of_mem hs
    exact (hnames _ hin).1 hy
  refine ⟨⟨slots ++ [y], ?_, ?_, ?_⟩, fun c' hc' => ?_⟩
  · rw [List.nodup_append]
    refine ⟨hnodup, List.nodup_singleton y, fun s hs s' hs' => ?_⟩
    rw [List.mem_singleton.mp hs']
    exact hne s hs
  · rw [List.map_append, ← hcaps]
    refine congrArg₂ _ (List.map_congr_left fun s hs => upd_ne _ _ (hne s hs)) ?_
    show [upd S.cap y c y] = [c]
    rw [upd_same]
  · show rewrite S.chains y [y] = _
    ext l
    rw [hchains]
    constructor
    · rintro (⟨⟨s, hs, rfl⟩, -, -⟩ | ⟨rfl, -⟩)
      · exact ⟨s, List.mem_append_left _ hs, rfl⟩
      · exact ⟨y, by simp, rfl⟩
    · rintro ⟨s, hs, rfl⟩
      rcases List.mem_append.mp hs with hs | hs
      · have hys : y ∉ [s] := by simpa using (hne s hs).symm
        exact Or.inl ⟨⟨s, hs, rfl⟩, hys, by simpa using hys⟩
      · rw [List.mem_singleton.mp hs]
        exact Or.inr ⟨rfl, by simp⟩
  · rcases List.mem_append.mp hc' with hc' | hc'
    · exact hnames c' hc'
    · rw [List.mem_singleton.mp hc']
      exact hc

/-! ### The idle task is not touched before its turn -/

/-- The task `t` stays as it is. -/
def SameTask (t : TaskPtr) (k k' : Kernel) : Prop := k'.tasks t = k.tasks t

instance : IsPreorder Kernel (SameTask t) where
  refl _ := rfl
  trans _ _ _ h h' := Eq.trans h' h

section Idle

variable {idle task : TaskPtr} (hne : idle ≠ task)

omit hne in
theorem keeps_same {f : Kernel → Kernel} (h : ∀ k, (f k).tasks = k.tasks) :
    Keeps (SameTask idle) (modify f : K Unit) := keeps_modify fun k => congrFun (h k) idle

omit hne in
theorem keeps_walkEnabled {R : Kernel → Kernel → Prop} [IsPreorder Kernel R] (va : Nat)
    (levels : List Nat) (table : TablePtr) : Keeps R (walkEnabled va levels table) := by
  induction levels generalizing table with
  | nil => exact keeps_pure _
  | cons level levels ih =>
    refine keeps_bind (keeps_pageTableWalk va level) fun index => keeps_bind keeps_get fun _ => ?_
    exact keeps_bind (keeps_kassert _) fun _ => keeps_bind keeps_get fun _ => ih _

include hne

theorem keeps_setTask {f : Kernel → Task} :
    Keeps (SameTask idle) (modify fun k => k.setTask task (f k) : K Unit) :=
  keeps_modify fun _ => upd_ne _ _ hne

theorem keeps_modifyTask {f : Task → Task} : Keeps (SameTask idle) (modifyTask task f) :=
  keeps_modify fun _ => upd_ne _ _ hne

theorem keeps_pushFreeSlots_idle (slot : SlotPtr) :
    Keeps (SameTask idle) (pushFreeSlots task slot) :=
  keeps_pushFreeSlots (fun _ _ => rfl) (fun _ _ _ => upd_ne _ _ hne) (fun _ _ _ => rfl) slot

theorem keeps_insertCap_idle (c : Capability) : Keeps (SameTask idle) (insertCap task c) :=
  keeps_insertCap (fun _ _ => rfl) (fun _ _ _ => upd_ne _ _ hne) (fun _ _ _ => rfl)
    (fun _ _ => rfl) c

theorem keeps_insertCapSpace (p : SpacePtr) : Keeps (SameTask idle) (insertCapSpace task p) := by
  unfold insertCapSpace
  refine keeps_bind keeps_get fun _ => keeps_ite ?_ ?_
  · exact keeps_bind (keeps_same fun _ => rfl) fun _ => keeps_pure _
  · refine keeps_bind keeps_get fun _ => keeps_bind (keeps_walkEnabled _ _ _) fun _ => ?_
    refine keeps_bind (keeps_pageTableWalk _ _) fun _ => keeps_bind keeps_get fun _ => ?_
    refine keeps_bind (keeps_kassert _) fun _ => keeps_bind (keeps_same fun _ => rfl) fun _ => ?_
    have hrest : ∀ n : Nat, Keeps (SameTask idle) (do
        modify fun k : Kernel => (k.setMetaInfo p ⟨some task, n⟩).record (.attach task n p)
        forM (pushFreeSlots task) (spaceSlots p n)
        modify fun k => k.setTask task { k.tasks task with
          capCount := { (k.tasks task).capCount with
            numCapSpace := ((k.tasks task).capCount.numCapSpace + 1) % MAX_NUM_CAP_SPACE } }
        return true) := fun n =>
      keeps_bind (keeps_same fun _ => rfl) fun _ =>
        keeps_bind (keeps_forM (keeps_pushFreeSlots_idle hne) _) fun _ =>
          keeps_bind (keeps_setTask hne) fun _ => keeps_pure _
    exact keeps_ite (keeps_bind (keeps_same fun _ => rfl) fun _ => hrest _) (hrest _)

theorem keeps_extendCapSpace (page : TablePtr) :
    Keeps (SameTask idle) (extendCapSpace task page) := by
  unfold extendCapSpace
  refine keeps_bind keeps_get fun _ => keeps_ite ?_ ?_
  · exact keeps_bind (keeps_same fun _ => rfl) fun _ => keeps_pure _
  · refine keeps_bind keeps_get fun _ => keeps_bind (keeps_walkEnabled _ _ _) fun _ => ?_
    refine keeps_bind (keeps_pageTableWalk _ _) fun _ => keeps_bind keeps_get fun _ => ?_
    refine keeps_bind (keeps_kassert _) fun _ => keeps_bind (keeps_same fun _ => rfl) fun _ => ?_
    exact keeps_bind (keeps_setTask hne) fun _ => keeps_pure _

omit hne in
theorem keeps_mapMappedSpace (root : TablePtr) :
    Keeps (SameTask idle) (mapMappedSpace root) := by
  unfold mapMappedSpace
  refine keeps_forM (fun i => ?_) _
  refine keeps_bind (keeps_pageTableWalk _ _) fun _ => keeps_bind keeps_get fun _ => ?_
  exact keeps_bind (keeps_kassert _) fun _ => keeps_same fun _ => rfl

theorem keeps_initTask (p : SpacePtr) (root table0 table1 : TablePtr) :
    Keeps (SameTask idle) (initTask task p root table0 table1) := by
  unfold initTask nextTid
  refine keeps_bind keeps_get fun _ => keeps_bind (keeps_kassert _) fun _ => ?_
  refine keeps_bind (keeps_bind (keeps_same fun _ => rfl) fun _ =>
    keeps_bind keeps_get fun _ => keeps_pure _) fun tid => ?_
  refine keeps_bind (keeps_modifyTask hne) fun _ => keeps_bind (keeps_same fun _ => rfl) fun _ => ?_
  refine keeps_bind (keeps_mapMappedSpace _) fun _ => keeps_bind (keeps_same fun _ => rfl) fun _ => ?_
  refine keeps_bind (keeps_pageTableWalk _ _) fun _ => keeps_bind keeps_get fun _ => ?_
  refine keeps_bind (keeps_kassert _) fun _ => keeps_bind (keeps_same fun _ => rfl) fun _ => ?_
  refine keeps_bind (keeps_extendCapSpace hne _) fun _ => keeps_ite (keeps_stop _) ?_
  refine keeps_bind (keeps_insertCapSpace hne _) fun _ => keeps_ite (keeps_stop _) ?_
  exact keeps_modifyTask hne

theorem keeps_insertRootCap (c : Capability) : Keeps (SameTask idle) (insertRootCap task c) :=
  keeps_bind (keeps_insertCap_idle hne c) fun _ => keeps_ite (keeps_stop _) (keeps_pure _)

end Idle

/-! ### `setup` -/

/-- In the middle of `setup`: the spaces `spaces` are attached to the root task, which has the
capabilities `cs`. -/
structure Setup (boot : BootInfo) (k : Kernel) (spaces : List SpacePtr) (cs : List Capability) :
    Prop where
  inv : StoreInv k ∅
  rooted : Rooted k.store cs
  root : k.store.root = upd (fun _ => none) boot.rootTask (some boot.rootPageTable)
  space : ∀ p, k.store.space p = if p ∈ spaces then some boot.rootTask else none
  trace : List.Forall₂ (fun event p => ∃ n, event = .attach boot.rootTask n p) k.trace spaces

namespace Setup

variable {spaces : List SpacePtr} (h : Setup boot k spaces cs)

include h

/-- What the tables hold is left open. -/
theorem tables (tables : TablePtr → Nat → Pte) : Setup boot (k.setTables tables) spaces cs where
  inv := h.inv.setTables tables
  rooted := ⟨h.rooted.slots, h.rooted.names⟩
  root := h.root
  space := h.space
  trace := h.trace

theorem inUse : (k.tasks boot.rootTask).state ≠ .unused := by
  intro hu
  have hroot := congrFun h.root boot.rootTask
  rw [upd_same] at hroot
  simp only [Kernel.store, if_pos hu] at hroot
  exact absurd hroot (by simp)

theorem wp_insert (hc : c.Names) {Q : Unit → Kernel → Prop}
    (hQ : ∀ k', Setup boot k' spaces (cs ++ [c]) → Q () k') :
    wp (insertRootCap t c) (.debug cfg) Q NoSwitch k := by
  refine wp_insertRootCap h.inv hc.1 fun y k' hy hinv hstore => hQ k' ⟨hinv, ?_, ?_, ?_, ?_⟩
  · rw [hstore]
    exact h.rooted.addRoot hy hc
  · rw [hstore]
    exact h.root
  · rw [hstore]
    exact h.space
  · have htrace : k'.trace = k.trace := congrArg CapStore.trace hstore
    rw [htrace]
    exact h.trace

/-- A loop that inserts capabilities. -/
theorem wp_insertAll {α : Type} {f : α → Capability} {body : α → K Unit}
    (hbody : ∀ {k cs} (a : α) {Q : Unit → Kernel → Prop}, Setup boot k spaces cs →
      (∀ k', Setup boot k' spaces (cs ++ [f a]) → Q () k') →
      wp (body a) (.debug cfg) Q NoSwitch k) (l : List α) {Q : Unit → Kernel → Prop}
    (hQ : ∀ k', Setup boot k' spaces (cs ++ l.map f) → Q () k') :
    wp (forM body l) (.debug cfg) Q NoSwitch k := by
  refine wp_forM (fun done rest k' => done ++ rest = l ∧ Setup boot k' spaces (cs ++ done.map f))
    ?_ ?_ l [] k ⟨rfl, by simpa using h⟩
  · rintro done k' ⟨hdone, hk'⟩
    rw [List.append_nil] at hdone
    exact hQ k' (hdone ▸ hk')
  · rintro done a rest k' ⟨hdone, hk'⟩
    refine hbody a hk' fun k'' hk'' => ⟨by simpa using hdone, ?_⟩
    rw [List.map_append, ← List.append_assoc]
    exact hk''

/-- A further capability space. -/
theorem wp_attach {p : SpacePtr} (hp : p ∉ spaces) {Q : Unit → Kernel → Prop}
    (hQ : ∀ k', Setup boot k' (spaces ++ [p]) cs → Q () k') :
    wp (do if (← insertCapSpace boot.rootTask p) = false then stop .panic) (.debug cfg) Q
      NoSwitch k := by
  have hdetached : (k.capSpaces p).task = none := (h.space p).trans (if_neg hp)
  rw [wp_bind]
  refine wp_insertCapSpace h.inv h.inUse hdetached rfl (fun e => ?_) fun k' _ _ hinv hstore => ?_
  · rw [wp_ite, if_pos rfl]
    exact Stop.noConfusion
  · rw [wp_ite, if_neg (by simp)]
    refine hQ k' ⟨hinv, ?_, ?_, fun q => ?_, ?_⟩
    · rw [hstore]
      exact ⟨h.rooted.slots, h.rooted.names⟩
    · rw [hstore]
      exact h.root
    · rw [hstore]
      show upd k.store.space p (some boot.rootTask) q = _
      rw [upd_apply, h.space]
      by_cases hq : q = p
      · simp [hq]
      · simp [hq]
    · have htrace : k'.trace = k.trace ++ [.attach boot.rootTask _ p] :=
        congrArg CapStore.trace hstore
      rw [htrace]
      exact List.rel_append h.trace (.cons ⟨_, rfl⟩ .nil)

end Setup

/-! ### The parts of `setup` -/

/-- At power-on everything is zero. -/
theorem powerOn_inv : StoreInv Kernel.powerOn ∅ ∧ Rooted Kernel.powerOn.store [] := by
  have hlist : ∀ s, Kernel.powerOn.links.IsList [s] := fun s =>
    Links.isList_singleton.mpr ⟨rfl, rfl⟩
  have hown : ∀ s, Kernel.powerOn.owner s = none := by
    intro s
    unfold Kernel.owner
    exact ite_self _
  refine ⟨⟨fun s => ⟨[s], by simp, hlist s⟩, fun s _ => ⟨rfl, hlist s⟩, fun s hs => absurd hs (by simp),
    fun p t hp => absurd hp (by simp [Kernel.powerOn]), fun t ht => absurd rfl ht⟩, ⟨[], ?_⟩, by simp⟩
  refine ⟨List.nodup_nil, rfl, ?_⟩
  ext l
  constructor
  · rintro ⟨hne, -, hcap⟩
    obtain ⟨s, hs⟩ := List.exists_mem_of_ne_nil l hne
    exact absurd rfl (hcap s hs)
  · rintro ⟨s, hs, -⟩
    exact absurd hs (by simp)

theorem wp_makePageTableCap {table : TablePtr} {mapped : Bool} {level va : Nat}
    {parent : Option TablePtr} {Q : Capability → Kernel → Prop}
    (h : Q (.pageTable ⟨mapped, level % 4, va % CONFIG_MAX_VIRTUAL_ADDRESS, table, parent⟩) k) :
    wp (makePageTableCap table mapped level va parent) (.debug cfg) Q NoSwitch k := by
  unfold makePageTableCap
  rw [wp_bind, wp_kassert]
  split
  · rw [wp_bind, wp_kassert]
    split
    · exact h
    · exact Stop.noConfusion
  · exact Stop.noConfusion

section Steps

variable {spaces : List SpacePtr} (h : Setup boot k spaces cs)

include h

theorem wp_setupMemoryCapabilities {Q : Unit → Kernel → Prop}
    (hQ : ∀ k', Setup boot k' spaces (cs ++ boot.memories.map MemoryRegion.cap) → Q () k') :
    wp (setupMemoryCapabilities boot) (.debug cfg) Q NoSwitch k := by
  unfold setupMemoryCapabilities
  refine h.wp_insertAll (fun block Q h hQ => ?_) boot.memories hQ
  unfold makeMemoryCap
  simp only [wp_bind, wp_kassert]
  split
  · split
    · exact h.wp_insert ⟨by simp, by simp⟩ hQ
    · exact Stop.noConfusion
  · exact Stop.noConfusion

theorem wp_mapRootTable {va level : Nat} {table next : TablePtr} {Q : Unit → Kernel → Prop}
    (hQ : ∀ k', Setup boot k' spaces (cs ++ [.pageTable ⟨true, (level - 1) % 4,
      va / getPageSize level * getPageSize level % CONFIG_MAX_VIRTUAL_ADDRESS, next,
      some table⟩]) → Q () k') :
    wp (mapRootTable boot va level table next) (.debug cfg) Q NoSwitch k := by
  unfold mapRootTable
  rw [wp_bind]
  refine wp_pageTableWalk ?_
  rw [wp_bind, wp_get, wp_bind, wp_kassert]
  split
  · rw [wp_bind, wp_modify, wp_bind]
    refine wp_makePageTableCap ?_
    exact (h.tables _).wp_insert ⟨by simp, by simp⟩ hQ
  · exact Stop.noConfusion

theorem wp_mapRootPage {va : Nat} {table : TablePtr} {flags : PteFlags} {page : PhysAddr}
    {Q : Unit → Kernel → Prop}
    (hQ : ∀ k', Setup boot k' spaces (cs ++ [rootPageCap table flags va page]) → Q () k') :
    wp (mapRootPage boot table flags va page) (.debug cfg) Q NoSwitch k := by
  unfold mapRootPage makeVirtPageCap
  rw [wp_bind]
  refine wp_pageTableWalk ?_
  rw [wp_bind, wp_get, wp_bind, wp_kassert]
  split
  · simp only [wp_bind, wp_modify, wp_kassert, wp_pure]
    split
    · split
      · exact (h.tables _).wp_insert ⟨by simp, by simp⟩ hQ
      · exact Stop.noConfusion
    · exact Stop.noConfusion
  · exact Stop.noConfusion

theorem wp_mapRootTask {mapping : RootMapping} {Q : Unit → Kernel → Prop}
    (hQ : ∀ k', Setup boot k' spaces (cs ++ mapping.caps boot.rootPageTable) → Q () k') :
    wp (mapRootTask boot mapping) (.debug cfg) Q NoSwitch k := by
  unfold mapRootTask
  rw [wp_bind, wp_modify, wp_bind]
  refine wp_mapRootTable ((h.tables _).tables _) fun k₁ hk₁ => ?_
  rw [wp_bind]
  refine wp_mapRootTable hk₁ fun k₂ hk₂ => ?_
  refine hk₂.wp_insertAll (fun i Q h hQ => wp_mapRootPage h hQ) _ fun k₃ hk₃ => hQ k₃ ?_
  simpa [RootMapping.caps, rootPageCaps] using hk₃

theorem wp_mapRootDtb {Q : Unit → Kernel → Prop}
    (hQ : ∀ k', Setup boot k' spaces (cs ++ rootPageCaps boot.payload.pageTable0
      (.userPage true false false) (boot.payload.base + boot.payload.region.size) boot.dtb.start
      boot.dtb.numPages) → Q () k') :
    wp (mapRootDtb boot) (.debug cfg) Q NoSwitch k := by
  unfold mapRootDtb
  exact h.wp_insertAll (fun i Q h hQ => wp_mapRootPage h hQ) _ hQ

end Steps

theorem pageRegion_ne {p q : Nat} (h : Region.Apart (pageRegion p) (pageRegion q)) : p ≠ q := by
  rintro rfl
  rcases h with h | h <;>
  · have h : p + 4096 ≤ p := h
    omega

theorem BootInfo.WellFormed.spaces_nodup (hwf : boot.WellFormed) :
    (boot.capSpace :: boot.capSpaces).Nodup := by
  have hpages : ((boot.capSpace :: boot.capSpaces).map pageRegion).Pairwise Region.Apart := by
    refine hwf.apart.sublist ?_
    unfold BootInfo.caps
    simp only [List.map_append, List.append_assoc, List.map_map]
    refine .cons _ (.cons _ ((List.Sublist.refl _).trans ?_))
    refine List.Sublist.trans (List.sublist_append_left _ _) (List.sublist_append_right _ _)
  rw [List.pairwise_map] at hpages
  exact hpages.imp pageRegion_ne

theorem wp_setupRootTask (hwf : boot.WellFormed) {Q : Unit → Kernel → Prop}
    (hQ : ∀ k', Setup boot k' (boot.capSpace :: boot.capSpaces)
      ([makeTaskCap boot.rootTask] ++
        (boot.capSpace :: boot.capSpaces).map (makeCapSpaceCap · true) ++ boot.tableCaps) →
      Q () k') : wp (setupRootTask boot) (.debug cfg) Q NoSwitch Kernel.powerOn := by
  have h0 := hwf.tables boot.capSpacePageTable0 (by simp [BootInfo.tables])
  have h1 := hwf.tables boot.capSpacePageTable1 (by simp [BootInfo.tables])
  obtain ⟨hinv, hrooted⟩ := powerOn_inv
  unfold setupRootTask
  rw [wp_bind, wp_modify, wp_bind]
  -- The root task gets its first space from `init_task`, the others one by one.
  refine wp_initTask (hinv.dispatch boot.rootTask) rfl h0 h1 fun k₁ tables _ hinv₁ hstore₁ => ?_
  have hk₁ : Setup boot k₁ [boot.capSpace] [] := by
    refine ⟨hinv₁, ?_, ?_, fun p => ?_, ?_⟩
    · rw [hstore₁]
      exact ⟨hrooted.slots, hrooted.names⟩
    · rw [hstore₁]
      rfl
    · rw [hstore₁]
      show upd (fun _ => none) boot.capSpace (some boot.rootTask) p = _
      rw [upd_apply]
      by_cases hp : p = boot.capSpace <;> simp [hp]
    · have htrace : k₁.trace = [.attach boot.rootTask 0 boot.capSpace] :=
        congrArg CapStore.trace hstore₁
      rw [htrace]
      exact .cons ⟨0, rfl⟩ .nil
  rw [wp_bind]
  -- The invariant of the loop: the spaces of `done` are attached.
  refine wp_forM (fun done rest k' => done ++ rest = boot.capSpaces ∧
    Setup boot k' (boot.capSpace :: done) []) ?_ ?_ _ [] k₁ ⟨rfl, hk₁⟩
  · rintro done k₂ ⟨hdone, hk₂⟩
    rw [List.append_nil] at hdone
    subst hdone
    rw [wp_bind]
    refine hk₂.wp_insert ⟨by simp [makeTaskCap], by simp [makeTaskCap]⟩ fun k₃ hk₃ => ?_
    rw [wp_bind]
    refine hk₃.wp_insertAll (f := (makeCapSpaceCap · true)) (fun space Q h hQ =>
      h.wp_insert ⟨by simp [makeCapSpaceCap], by simp [makeCapSpaceCap]⟩ hQ) _ fun k₄ hk₄ => ?_
    rw [wp_bind]
    refine wp_makePageTableCap ?_
    rw [wp_bind]
    refine hk₄.wp_insert ⟨by simp, by simp⟩ fun k₅ hk₅ => ?_
    rw [wp_bind]
    refine wp_makePageTableCap ?_
    rw [wp_bind]
    refine hk₅.wp_insert ⟨by simp, by simp⟩ fun k₆ hk₆ => ?_
    rw [wp_bind]
    refine wp_makePageTableCap ?_
    refine hk₆.wp_insert ⟨by simp, by simp⟩ fun k₇ hk₇ => hQ k₇ ?_
    -- The fields of the last capability are bit fields that hold their values.
    have hva : CONFIG_CAPABILITY_SPACE_BASE % CONFIG_MAX_VIRTUAL_ADDRESS
        = CONFIG_CAPABILITY_SPACE_BASE := by decide
    have hlevel : MAX_PAGE_TABLE_LEVEL % 4 = 2 := by decide
    simpa [BootInfo.tableCaps, hva, hlevel] using hk₇
  · rintro done p rest k₂ ⟨hdone, hk₂⟩
    have hnd := hwf.spaces_nodup
    rw [← hdone, List.append_cons, ← List.cons_append, ← List.cons_append] at hnd
    have hp : p ∉ boot.capSpace :: done := by
      have hdisj := (List.nodup_append.mp (List.nodup_append.mp hnd).1).2.2
      exact fun hin => hdisj p hin p (by simp) rfl
    exact hk₂.wp_attach hp fun k₃ hk₃ => ⟨by simpa using hdone, hk₃⟩

/-- The first state of a run. -/
structure Booted (boot : BootInfo) (k : Kernel) : Prop where
  inv : StoreInv k ∅
  rooted : Rooted k.store boot.caps
  root : k.store.root = upd (upd (fun _ => none) boot.rootTask (some boot.rootPageTable))
    boot.idleTask (some boot.idleRootPageTable)
  space : ∀ p, k.store.space p
    = if p ∈ boot.capSpace :: boot.capSpaces then some boot.rootTask else none
  trace : List.Forall₂ (fun event p => ∃ n, event = .attach boot.rootTask n p) k.trace
    (boot.capSpace :: boot.capSpaces)

theorem wp_setupIdleTask {spaces : List SpacePtr} (h : Setup boot k spaces cs)
    (hidle : k.tasks boot.idleTask = Task.zero) {Q : Unit → Kernel → Prop}
    (hQ : ∀ k', StoreInv k' ∅ → (∃ tables, k'.store = { k.store with
      tables := tables
      root := upd k.store.root boot.idleTask (some boot.idleRootPageTable) }) → Q () k') :
    wp (setupIdleTask boot) (.debug cfg) Q NoSwitch k := by
  unfold setupIdleTask initIdleTask modifyTask
  simp only [wp_bind, wp_modify, wp_get, wp_kassert]
  split
  · rename_i hunused
    generalize hk₁ : Kernel.mapTask _ boot.idleTask _ = k₁
    have hinv₁ : StoreInv k₁ ∅ := by
      have hf : StoreFrame k { k with idleTask := boot.idleTask } :=
        ⟨rfl, rfl, fun _ => rfl, fun _ => rfl, fun _ => Iff.rfl⟩
      rw [← hk₁]
      refine (hf.storeInv h.inv).startTask hunused rfl ?_
      show (k.tasks boot.idleTask).freeSlotsCount = 0
      rw [hidle]
      rfl
    have hstore₁ : k₁.store = { k.store with
        root := upd k.store.root boot.idleTask (some boot.idleRootPageTable) } := by
      rw [← hk₁]
      unfold Kernel.store
      congr 1
      funext t'
      by_cases ht : t' = boot.idleTask <;> simp [Kernel.mapTask, upd_apply, ht]
    refine wp_mapMappedSpace fun tables _ _ => ?_
    generalize hk₂ : (k₁.zeroTable boot.idleRootPageTable).setTables tables = k₂
    have hf : CapFrame k₂ (k₂.mapTask boot.idleTask fun t => { t with context := .idle }) :=
      .mapTask k₂ _ rfl rfl rfl rfl Iff.rfl
    have hinv₂ : StoreInv k₂ ∅ := hk₂ ▸ (hinv₁.setTables _).setTables _
    refine hQ _ (hf.storeInv hinv₂) ⟨tables, ?_⟩
    have hstore₂ : k₂.store = { k₁.store with tables := tables } := by
      rw [← hk₂]
      rfl
    rw [hf.store, hstore₂, hstore₁]
  · exact Stop.noConfusion

theorem BootInfo.WellFormed.idle_ne (hwf : boot.WellFormed) : boot.idleTask ≠ boot.rootTask := by
  refine pageRegion_ne ((List.pairwise_cons.mp hwf.apart).1 _ (List.mem_cons_of_mem _ ?_))
  exact List.mem_map_of_mem (f := Capability.region) (a := makeTaskCap boot.rootTask)
    (by simp [BootInfo.caps])

section Parts

variable (hne : boot.idleTask ≠ boot.rootTask)

include hne

theorem keeps_setupRootTask : Keeps (SameTask boot.idleTask) (setupRootTask boot) := by
  unfold setupRootTask
  refine keeps_bind (keeps_same fun _ => rfl) fun _ => keeps_bind (keeps_initTask hne _ _ _ _) fun _ => ?_
  refine keeps_bind (keeps_forM (fun _ => ?_) _) fun _ => ?_
  · exact keeps_bind (keeps_insertCapSpace hne _) fun _ => keeps_ite (keeps_stop _) (keeps_pure _)
  have hinsert : ∀ c, Keeps (SameTask boot.idleTask) (insertRootCap boot.rootTask c) :=
    keeps_insertRootCap hne
  have htable : ∀ table mapped level va parent,
      Keeps (SameTask boot.idleTask) (makePageTableCap table mapped level va parent) :=
    fun _ _ _ _ _ => keeps_bind (keeps_kassert _) fun _ => keeps_bind (keeps_kassert _) fun _ =>
      keeps_pure _
  refine keeps_bind (hinsert _) fun _ => keeps_bind (keeps_forM (fun _ => hinsert _) _) fun _ => ?_
  refine keeps_bind (htable _ _ _ _ _) fun _ => keeps_bind (hinsert _) fun _ => ?_
  refine keeps_bind (htable _ _ _ _ _) fun _ => keeps_bind (hinsert _) fun _ => ?_
  exact keeps_bind (htable _ _ _ _ _) fun _ => hinsert _

theorem keeps_mapRootTable (va level : Nat) (table next : TablePtr) :
    Keeps (SameTask boot.idleTask) (mapRootTable boot va level table next) := by
  unfold mapRootTable makePageTableCap
  refine keeps_bind (keeps_pageTableWalk _ _) fun _ => keeps_bind keeps_get fun _ => ?_
  refine keeps_bind (keeps_kassert _) fun _ => keeps_bind (keeps_same fun _ => rfl) fun _ => ?_
  refine keeps_bind ?_ fun _ => keeps_insertRootCap hne _
  exact keeps_bind (keeps_kassert _) fun _ => keeps_bind (keeps_kassert _) fun _ => keeps_pure _

theorem keeps_mapRootPage (table : TablePtr) (flags : PteFlags) (va : Nat) (page : PhysAddr) :
    Keeps (SameTask boot.idleTask) (mapRootPage boot table flags va page) := by
  unfold mapRootPage makeVirtPageCap
  refine keeps_bind (keeps_pageTableWalk _ _) fun _ => keeps_bind keeps_get fun _ => ?_
  refine keeps_bind (keeps_kassert _) fun _ => keeps_bind (keeps_same fun _ => rfl) fun _ => ?_
  refine keeps_bind ?_ fun _ => keeps_insertRootCap hne _
  exact keeps_bind (keeps_kassert _) fun _ => keeps_bind (keeps_kassert _) fun _ => keeps_pure _

theorem keeps_mapRootTask (mapping : RootMapping) :
    Keeps (SameTask boot.idleTask) (mapRootTask boot mapping) :=
  keeps_bind (keeps_same fun _ => rfl) fun _ => keeps_bind (keeps_mapRootTable hne _ _ _ _) fun _ =>
    keeps_bind (keeps_mapRootTable hne _ _ _ _) fun _ =>
      keeps_forM (fun _ => keeps_mapRootPage hne _ _ _ _) _

theorem keeps_setupMemoryCapabilities :
    Keeps (SameTask boot.idleTask) (setupMemoryCapabilities boot) := by
  unfold setupMemoryCapabilities makeMemoryCap
  refine keeps_forM (fun _ => keeps_bind ?_ fun _ => keeps_insertRootCap hne _) _
  exact keeps_bind (keeps_kassert _) fun _ => keeps_bind (keeps_kassert _) fun _ => keeps_pure _

end Parts

/-- A part of `setup` in front of the idle task. -/
theorem wp_part {m : K Unit} {spaces : List SpacePtr} {Q : Unit → Kernel → Prop}
    (hkeeps : Keeps (SameTask boot.idleTask) m) (hidle : k.tasks boot.idleTask = Task.zero)
    (hm : wp m (.debug cfg) (fun _ k' => Setup boot k' spaces cs) NoSwitch k)
    (hQ : ∀ k', Setup boot k' spaces cs → k'.tasks boot.idleTask = Task.zero → Q () k') :
    wp m (.debug cfg) Q NoSwitch k :=
  wp_mono (wp_and hm (hkeeps (.debug cfg) k))
    (fun _ k' h => hQ k' h.1 (Eq.trans h.2 hidle)) fun _ _ h => h.1

/-- `setup` ends in the first state of a run, unless it stops. -/
theorem wp_setup (hwf : boot.WellFormed) :
    wp (setup boot) (.debug cfg) (fun _ k => Booted boot k) NoSwitch Kernel.powerOn := by
  have hne := hwf.idle_ne
  unfold setup
  rw [wp_bind]
  refine wp_part (keeps_setupRootTask hne) rfl (wp_setupRootTask hwf fun _ h => h)
    fun k₁ hk₁ hidle₁ => ?_
  rw [wp_bind]
  refine wp_part (keeps_setupMemoryCapabilities hne) hidle₁
    (wp_setupMemoryCapabilities hk₁ fun _ h => h) fun k₂ hk₂ hidle₂ => ?_
  rw [wp_bind]
  refine wp_part (keeps_mapRootTask hne _) hidle₂ (wp_mapRootTask hk₂ fun _ h => h)
    fun k₃ hk₃ hidle₃ => ?_
  rw [wp_bind]
  refine wp_part (keeps_mapRootTask hne _) hidle₃ (wp_mapRootTask hk₃ fun _ h => h)
    fun k₄ hk₄ hidle₄ => ?_
  rw [wp_bind]
  refine wp_part (keeps_forM (fun _ => keeps_mapRootPage hne _ _ _ _) _) hidle₄
    (wp_mapRootDtb hk₄ fun _ h => h) fun k₅ hk₅ hidle₅ => ?_
  refine wp_setupIdleTask hk₅ hidle₅ fun k₆ hinv hstore => ?_
  obtain ⟨tables, hstore⟩ := hstore
  refine ⟨hinv, ?_, ?_, fun p => ?_, ?_⟩
  · rw [hstore]
    exact ⟨hk₅.rooted.slots, hk₅.rooted.names⟩
  · rw [hstore, ← hk₅.root]
  · rw [hstore]
    exact hk₅.space p
  · have htrace : k₆.trace = k₅.trace := congrArg CapStore.trace hstore
    rw [htrace]
    exact hk₅.trace

/-! ### The first state is in order -/

theorem Region.Apart.symm {r r' : Region} (h : r.Apart r') : r'.Apart r := Or.symm h

theorem Capability.covers_region {a : Nat} (h : c.Covers a) :
    Between c.region.start (c.region.start + c.region.size) a := by
  cases c with
  | memory m =>
    have h : m.physAddr + m.usedSize ≤ a ∧ a < m.physAddr + m.size := h
    show m.physAddr ≤ a ∧ a < m.physAddr + m.size
    omega
  | null => exact h.elim
  | id _ => exact h.elim
  | zombie => exact h.elim
  | _ => exact h

theorem not_between_of_apart {lo n lo' n' a : Nat} (h : lo + n ≤ lo' ∨ lo' + n' ≤ lo)
    (ha : Between lo (lo + n) a) : ¬ Between lo' (lo' + n') a := by
  unfold Between at *
  omega

theorem Region.Apart.not_between {r r' : Region} {a : Nat} (h : r.Apart r')
    (ha : Between r.start (r.start + r.size) a) : ¬ Between r'.start (r'.start + r'.size) a :=
  not_between_of_apart h ha

namespace BootInfo

theorem WellFormed.caps_apart (hwf : boot.WellFormed) :
    boot.caps.Pairwise fun c c' => c.region.Apart c'.region :=
  List.pairwise_map.mp (List.pairwise_cons.mp (List.pairwise_cons.mp hwf.apart).2).2

theorem WellFormed.apart_of_ne (hwf : boot.WellFormed) {c c' : Capability} (hc : c ∈ boot.caps)
    (hc' : c' ∈ boot.caps) (hne : c ≠ c') : c.region.Apart c'.region :=
  have : Std.Symm fun c c' : Capability => c.region.Apart c'.region := ⟨fun _ _ h => h.symm⟩
  hwf.caps_apart.forall hc hc' hne

/-- The memory capabilities of the root task are those of the blocks. -/
theorem mem_caps_memory {m : MemoryCap} (h : .memory m ∈ boot.caps) :
    m.usedSize = 0 ∧ m.physAddr < CONFIG_MAX_PHYSICAL_ADDRESS ∧
      m.size < CONFIG_MAX_PHYSICAL_ADDRESS := by
  have hin : .memory m ∈ boot.memories.map MemoryRegion.cap := by
    simpa [caps, tableCaps, makeTaskCap, makeCapSpaceCap, RootMapping.caps, rootPageCaps,
      rootPageCap] using h
  obtain ⟨block, -, hblock⟩ := List.mem_map.mp hin
  obtain rfl := Capability.memory.inj hblock
  exact ⟨rfl, Nat.mod_lt _ (by decide), Nat.mod_lt _ (by decide)⟩

theorem mem_caps_pageTable {p : PageTableCap} (h : .pageTable p ∈ boot.caps) :
    p.table ∈ boot.tables := by
  simp only [caps, tableCaps, makeTaskCap, makeCapSpaceCap, RootMapping.caps, rootPageCaps,
    rootPageCap, MemoryRegion.cap, tables, List.mem_append, List.mem_cons, List.mem_map,
    List.not_mem_nil, Capability.pageTable.injEq, reduceCtorEq, and_false, exists_false,
    or_false, false_or] at h ⊢
  rcases h with (((rfl | rfl | rfl) | rfl | rfl) | rfl | rfl) <;> simp

end BootInfo

namespace Booted

variable (h : Booted boot k)

include h

theorem mem_caps (hs : k.cap s ≠ .null) : k.cap s ∈ boot.caps := by
  obtain ⟨slots, -, hcaps, hchains⟩ := h.rooted.slots
  obtain ⟨a, b, hl⟩ := h.inv.exists_chain hs
  have hl : a ++ s :: b ∈ k.store.chains := hl
  rw [hchains] at hl
  obtain ⟨s', hs', heq⟩ := hl
  have hss : s = s' := by
    have hin : s ∈ a ++ s :: b := by simp
    rw [heq] at hin
    exact List.mem_singleton.mp hin
  rw [← hcaps]
  exact List.mem_map_of_mem (f := k.cap) (hss ▸ hs')

/-- Each derivation list is a single slot. -/
theorem chain_single {l : List SlotPtr} (hl : l ∈ k.chains) : ∃ s, l = [s] := by
  obtain ⟨slots, -, -, hchains⟩ := h.rooted.slots
  have hl : l ∈ k.store.chains := hl
  rw [hchains] at hl
  obtain ⟨s, -, hs⟩ := hl
  exact ⟨s, hs⟩

variable (hwf : boot.WellFormed)

include hwf

/-- Two slots hold capabilities of different objects. -/
theorem apart {s' : SlotPtr} (hne : s ≠ s') (hs : k.cap s ≠ .null) (hs' : k.cap s' ≠ .null) :
    (k.cap s).region.Apart (k.cap s').region := by
  obtain ⟨slots, hnodup, hcaps, hchains⟩ := h.rooted.slots
  have hmem : ∀ {s}, k.cap s ≠ .null → s ∈ slots := by
    intro s hs
    obtain ⟨a, b, hl⟩ := h.inv.exists_chain hs
    have hl : a ++ s :: b ∈ k.store.chains := hl
    rw [hchains] at hl
    obtain ⟨s', hs', heq⟩ := hl
    have hin : s ∈ a ++ s :: b := by simp
    rw [heq] at hin
    exact (List.mem_singleton.mp hin).symm ▸ hs'
  have hapart := hwf.caps_apart
  rw [← hcaps, List.pairwise_map] at hapart
  have : Std.Symm fun s s' : SlotPtr => (k.store.cap s).region.Apart (k.store.cap s').region :=
    ⟨fun _ _ h => h.symm⟩
  exact hapart.forall (hmem hs) (hmem hs') hne

omit h in
/-- A block of memory has no address of the other objects. -/
theorem memory_apart {m : MemoryCap} (hm : .memory m ∈ boot.caps) {r : Region} {a : Nat}
    (hr : r = pageRegion boot.idleTask ∨ ∃ c ∈ boot.caps, c.region = r ∧ ∀ m, c ≠ .memory m)
    (ha : Between r.start (r.start + r.size) a) : ¬ (Capability.memory m).Covers a := by
  intro hcovers
  have hapart : r.Apart (Capability.memory m).region := by
    rcases hr with rfl | ⟨c, hc, rfl, hne⟩
    · refine (List.pairwise_cons.mp hwf.apart).1 _ (List.mem_cons_of_mem _ ?_)
      exact List.mem_map_of_mem hm
    · exact hwf.apart_of_ne hc hm (hne m)
  exact hapart.not_between ha (Capability.covers_region hcovers)

theorem memInv : MemInv k.store where
  bounds s m hs := by
    have hs : k.cap s = .memory m := hs
    have hm : .memory m ∈ boot.caps := hs ▸ h.mem_caps (by simp [hs])
    obtain ⟨hused, hphys, hsize⟩ := BootInfo.mem_caps_memory hm
    exact ⟨by omega, hphys, hsize⟩
  disjoint s s' hne a ha ha' := by
    have hs : k.cap s ≠ .null := fun heq => by
      have ha : (k.cap s).Covers a := ha
      rw [heq] at ha
      exact ha
    have hs' : k.cap s' ≠ .null := fun heq => by
      have ha' : (k.cap s').Covers a := ha'
      rw [heq] at ha'
      exact ha'
    exact absurd (Capability.covers_region ha')
      ((h.apart hwf hne hs hs').not_between (Capability.covers_region ha))
  aligned s p hs := by
    have hs : k.cap s = .pageTable p := hs
    have hp : .pageTable p ∈ boot.caps := hs ▸ h.mem_caps (by simp [hs])
    exact hwf.tables _ (BootInfo.mem_caps_pageTable hp)
  tasks t r a ht ha := by
    rintro ⟨s, m, hs, hcovers⟩
    have hs : k.cap s = .memory m := hs
    have hm : .memory m ∈ boot.caps := hs ▸ h.mem_caps (by simp [hs])
    have hcovers : (k.cap s).Covers a := hcovers
    rw [hs] at hcovers
    -- The two tasks are the idle task and the root task, and both are apart from the memory.
    refine memory_apart hwf hm (r := pageRegion t) ?_ ha hcovers
    rw [h.root, upd_apply, upd_apply] at ht
    split at ht
    · rename_i hidle
      exact Or.inl (hidle ▸ rfl)
    · split at ht
      · rename_i hroot
        refine Or.inr ⟨makeTaskCap boot.rootTask, by simp [BootInfo.caps], ?_, by simp [makeTaskCap]⟩
        rw [hroot]
        rfl
      · exact absurd ht (by simp)
  spaces p t a hp ha := by
    rintro ⟨s, m, hs, hcovers⟩
    have hs : k.cap s = .memory m := hs
    have hm : .memory m ∈ boot.caps := hs ▸ h.mem_caps (by simp [hs])
    have hcovers : (k.cap s).Covers a := hcovers
    rw [hs] at hcovers
    rw [h.space] at hp
    split at hp
    · rename_i hin
      -- The attached spaces are those of the boot, and apart from the memory.
      refine memory_apart hwf hm (r := pageRegion p) (Or.inr ⟨makeCapSpaceCap p true, ?_, rfl, ?_⟩)
        ha hcovers
      · have hmap := List.mem_map_of_mem (f := (makeCapSpaceCap · true)) hin
        unfold BootInfo.caps
        simp only [List.mem_append]
        tauto
      · simp [makeCapSpaceCap]
    · exact absurd hp (by simp)

theorem kernelInv : KernelInv k where
  links := h.inv
  store := {
    ok := h.inv.storeOk
    tail := by
      intro l hl z hz hzombie
      have hcap : k.cap z ≠ .null := hl.2.2 z (List.mem_of_getLast? hz)
      exact (h.rooted.names _ (h.mem_caps hcap)).2 hzombie
    mem := h.memInv hwf }

end Booted

/-- A run from the first state, in which every call meets the condition `ok`. -/
structure Reaches (config : Config) (boot : BootInfo) (ok : Kernel → Turn × Option Answer → Prop)
    (k : Kernel) : Prop where
  wellFormed : boot.WellFormed
  run : ∃ k₀ calls, setup boot (.debug config) .powerOn = .ok () k₀ ∧ Run config ok k₀ calls k

/-- The state that `setup` and a list of turns end in, computed. -/
def bootTurns (config : Config) (boot : BootInfo) (ok : Kernel → Turn × Option Answer → Prop)
    [∀ k call, Decidable (ok k call)] (turns : List Turn) : Option Kernel :=
  match setup boot (.debug config) .powerOn with
  | .ok _ k => runTurns config ok turns k
  | .stop _ _ => none

theorem reaches_of_bootTurns {ok : Kernel → Turn × Option Answer → Prop}
    [∀ k call, Decidable (ok k call)] (hwf : boot.WellFormed) {turns : List Turn}
    (h : bootTurns cfg boot ok turns = some k) : Reaches cfg boot ok k := by
  unfold bootTurns at h
  split at h
  · rename_i k₀ hsetup
    obtain ⟨calls, hrun⟩ := run_of_runTurns h
    exact ⟨hwf, k₀, calls, hsetup, hrun⟩
  · exact absurd h (by simp)

section Reaches

variable {ok : Kernel → Turn × Option Answer → Prop}

theorem Reaches.booted (h : Reaches cfg boot ok k) :
    ∃ k₀ calls, Booted boot k₀ ∧ Run cfg ok k₀ calls k := by
  obtain ⟨k₀, calls, hsetup, hrun⟩ := h.run
  exact ⟨k₀, calls, wp_ok (wp_setup h.wellFormed) hsetup, hrun⟩

/-- What holds at first and is preserved by every call holds in every reachable state. -/
theorem Reaches.invariant {I : Kernel → Prop} (h : Reaches cfg boot ok k)
    (hboot : ∀ k, Booted boot k → I k)
    (hstep : ∀ k call k', I k → ok k call → Step cfg k call.1 call.2 k' → I k') : I k := by
  obtain ⟨k₀, calls, hbooted, hrun⟩ := h.booted
  exact hrun.invariant (fun k call k' hk h => hstep k call k' hk h.1 h.2) (hboot k₀ hbooted)

/-- Every state that is reached by safe calls is in order. -/
theorem Reaches.kernelInv (h : Reaches cfg boot ok k) (hsafe : ∀ k call, ok k call → Safe k call) :
    KernelInv k :=
  h.invariant (fun _ hk => hk.kernelInv h.wellFormed) fun k call _ hk hok hstep =>
    hstep.keeps hk (hsafe k call hok)

end Reaches

/-! ### A small machine -/

/-- A configuration to run examples on. -/
def sampleConfig : Config where
  loopBound := 300
  kiloPage := 0
  messageHeaderSize := 0
  decodeHeader _ := ⟨0, 0, 0, 0, 0, []⟩
  encodeHeader _ := []
  msgTypeIpc := 0
  msgTypeKill := 1

/-- A machine with one block of memory and one capability space, and no payload. -/
def sampleBoot : BootInfo where
  rootTask := 0x100000
  rootPageTable := 0x101000
  capSpace := 0x102000
  capSpaces := []
  capSpacePageTable0 := 0x103000
  capSpacePageTable1 := 0x104000
  memories := [⟨⟨0x1000, 0x40000⟩, false⟩]
  payload := ⟨0x10000000, ⟨0x200000, 0⟩, 0x105000, 0x106000, true⟩
  stack := ⟨0x1000000000, ⟨0x201000, 0⟩, 0x107000, 0x108000, false⟩
  dtb := ⟨0x300000, 0⟩
  idleTask := 0x109000
  idleRootPageTable := 0x10a000

theorem sampleBoot_wellFormed : sampleBoot.WellFormed := by decide

/-- A slot of the root task's first capability space. Slot 6 holds the block of memory, and
slot 11 is the first free one. -/
def sampleSlot (index : Nat) : SlotPtr := ⟨sampleBoot.capSpace, index⟩

/-- A call of the root task. -/
def sampleTurn (call : Call) : Turn := ⟨sampleBoot.rootTask, call⟩

/-- What a computed run ends in. -/
theorem sample_reaches {ok : Kernel → Turn × Option Answer → Prop}
    [∀ k call, Decidable (ok k call)] (turns : List Turn) {P : Kernel → Prop} [DecidablePred P]
    (h : (bootTurns sampleConfig sampleBoot ok turns).any (fun k => decide (P k)) = true) :
    ∃ k, Reaches sampleConfig sampleBoot ok k ∧ P k := by
  rw [Option.any_eq_true] at h
  obtain ⟨k, hk, hP⟩ := h
  exact ⟨k, reaches_of_bootTurns sampleBoot_wellFormed hk, of_decide_eq_true hP⟩

/-- The same with one more call. -/
theorem sample_step {ok : Kernel → Turn × Option Answer → Prop}
    [∀ k call, Decidable (ok k call)] (turns : List Turn) (turn : Turn)
    {P : Kernel → Option Answer → Kernel → Prop} [∀ k answer k', Decidable (P k answer k')]
    (h : (bootTurns sampleConfig sampleBoot ok turns).any (fun k =>
      (turn.next sampleConfig k).any fun next => decide (P k next.1 next.2)) = true) :
    ∃ k answer k', Reaches sampleConfig sampleBoot ok k ∧ Step sampleConfig k turn answer k' ∧
      P k answer k' := by
  rw [Option.any_eq_true] at h
  obtain ⟨k, hk, hnext⟩ := h
  rw [Option.any_eq_true] at hnext
  obtain ⟨⟨answer, k'⟩, hstep, hP⟩ := hnext
  exact ⟨k, answer, k', reaches_of_bootTurns sampleBoot_wellFormed hk, step_of_next hstep,
    of_decide_eq_true hP⟩

end Caprese
