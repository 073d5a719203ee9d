import Caprese.Store.Boot
import Caprese.Store.Pages

/-!
# `Caprese.Store.Loaded`: what the root task is given access to

At the end of boot, the entries for the user lead to the pages of the root task's own capabilities
(`setup_mapsAt`): its payload, its stack and the device tree.
-/

set_option autoImplicit false

namespace Caprese

open Lib Prog

variable {cfg : Config} {env : Env} {k k' : Kernel} {T : TablePtr → Prop} {P : PhysAddr → Prop}
  {boot : BootInfo} {t : TablePtr} {i : Nat} {a : PhysAddr}

/-- Only entries of the tables in `T` have the flag for the user, and they lead to pages in `P`. An
entry that is disabled keeps its flags, and gets them back when it is enabled. -/
def Kernel.UserOnly (T : TablePtr → Prop) (P : PhysAddr → Prop) (k : Kernel) : Prop :=
  ∀ t i, (k.pte t i).u = true → T t ∧ P (k.pte t i).getNextPage

/-- A part of `setup` that does not break `UserOnly`. -/
def KeepsUser (T : TablePtr → Prop) (P : PhysAddr → Prop) (k k' : Kernel) : Prop :=
  k.UserOnly T P → k'.UserOnly T P

namespace KeepsUser

theorem trans {k'' : Kernel} (h : KeepsUser T P k k') (h' : KeepsUser T P k' k'') :
    KeepsUser T P k k'' := fun hk => h' (h hk)

instance : IsPreorder Kernel (KeepsUser T P) where
  refl _ := id
  trans _ _ _ := trans

theorem of_eq (h : k'.pageTables = k.pageTables) : KeepsUser T P k k' := by
  intro hk t i
  unfold Kernel.pte
  rw [h]
  exact hk t i

theorem setPte {e : Pte} (h : k.UserOnly T P → e.u = true → T t ∧ P e.getNextPage) :
    KeepsUser T P k (k.setPte t i e) := by
  intro hk t' i' hu
  have hpte : (k.setPte t i e).pte t' i' = if t' = t ∧ i' = i then e else k.pte t' i' :=
    setEntry_apply t' i' e
  rw [hpte] at hu ⊢
  split
  · rename_i hthere
    rw [if_pos hthere] at hu
    exact hthere.1 ▸ h hk hu
  · rename_i hthere
    rw [if_neg hthere] at hu
    exact hk t' i' hu

theorem zeroTable : KeepsUser T P k (k.zeroTable t) := by
  intro hk t' i' hu
  by_cases ht : t' = t
  · have hzero : (k.zeroTable t).pte t' i' = Pte.zero := by
      show upd k.pageTables t (fun _ => Pte.zero) t' i' = Pte.zero
      rw [ht, upd_same]
    rw [hzero] at hu
    exact absurd hu (by decide)
  · have hsame : (k.zeroTable t).pte t' i' = k.pte t' i' := congrFun (upd_ne _ _ ht) i'
    rw [hsame] at hu ⊢
    exact hk t' i' hu

/-- An entry of the kernel. -/
theorem fill {flags : PteFlags} {page : PhysAddr} {e : Pte} (h : flags.user = false) :
    KeepsUser T P k (k.setPte t i (e.fill flags page)) := by
  refine setPte fun _ hu => ?_
  have hflag : (e.fill flags page).u = flags.user := rfl
  rw [hflag, h] at hu
  exact absurd hu Bool.false_ne_true

theorem keeps_pushFreeSlots (task : TaskPtr) (slot : SlotPtr) :
    Keeps (KeepsUser T P) (pushFreeSlots task slot) :=
  Caprese.keeps_pushFreeSlots (fun _ _ => of_eq rfl) (fun _ _ _ => of_eq rfl)
    (fun _ _ _ => of_eq rfl) slot

theorem keeps_insertCap (task : TaskPtr) (c : Capability) :
    Keeps (KeepsUser T P) (insertCap task c) :=
  Caprese.keeps_insertCap (fun _ _ => of_eq rfl) (fun _ _ _ => of_eq rfl) (fun _ _ _ => of_eq rfl)
    (fun _ _ => of_eq rfl) c

theorem keeps_insertRootCap (task : TaskPtr) (c : Capability) :
    Keeps (KeepsUser T P) (insertRootCap task c) :=
  keeps_bind (keeps_insertCap task c) fun _ => keeps_ite (keeps_stop _) (keeps_pure _)

theorem keeps_makePageTableCap (table : TablePtr) (mapped : Bool) (level va : Nat)
    (parent : Option TablePtr) :
    Keeps (KeepsUser T P) (makePageTableCap table mapped level va parent) :=
  keeps_bind (keeps_kassert _) fun _ => keeps_bind (keeps_kassert _) fun _ => keeps_pure _

theorem keeps_insertCapSpace (task : TaskPtr) (p : SpacePtr) :
    Keeps (KeepsUser T P) (insertCapSpace task p) := by
  unfold insertCapSpace
  refine keeps_bind keeps_get fun _ => keeps_ite ?_ ?_
  · exact keeps_bind (keeps_modify fun _ => of_eq rfl) fun _ => keeps_pure _
  · refine keeps_bind keeps_get fun _ => keeps_bind (keeps_walkEnabled _ _ _) fun _ => ?_
    refine keeps_bind (keeps_pageTableWalk _ _) fun _ => keeps_bind keeps_get fun _ => ?_
    refine keeps_bind (keeps_kassert _) fun _ => ?_
    refine keeps_bind (keeps_modify fun _ => fill rfl) fun _ => ?_
    have hrest : ∀ n : Nat, Keeps (KeepsUser T P) (do
        modify fun k : Kernel => (k.setMetaInfo p ⟨some task, n⟩).record (.attach task n p)
        forM (pushFreeSlots task) (spaceSlots p n)
        modify fun k => k.setTask task { k.tasks task with
          capCount := { (k.tasks task).capCount with
            numCapSpace := ((k.tasks task).capCount.numCapSpace + 1) % MAX_NUM_CAP_SPACE } }
        return true) := fun n =>
      keeps_bind (keeps_modify fun _ => of_eq rfl) fun _ =>
        keeps_bind (keeps_forM (keeps_pushFreeSlots _) _) fun _ =>
          keeps_bind (keeps_modify fun _ => of_eq rfl) fun _ => keeps_pure _
    exact keeps_ite (keeps_bind (keeps_modify fun _ => of_eq rfl) fun _ => hrest _) (hrest _)

theorem keeps_extendCapSpace (task : TaskPtr) (page : TablePtr) :
    Keeps (KeepsUser T P) (extendCapSpace task page) := by
  unfold extendCapSpace
  refine keeps_bind keeps_get fun _ => keeps_ite ?_ ?_
  · exact keeps_bind (keeps_modify fun _ => of_eq rfl) fun _ => keeps_pure _
  · refine keeps_bind keeps_get fun _ => keeps_bind (keeps_walkEnabled _ _ _) fun _ => ?_
    refine keeps_bind (keeps_pageTableWalk _ _) fun _ => keeps_bind keeps_get fun _ => ?_
    refine keeps_bind (keeps_kassert _) fun _ => ?_
    refine keeps_bind (keeps_modify fun _ => fill rfl) fun _ => ?_
    exact keeps_bind (keeps_modify fun _ => of_eq rfl) fun _ => keeps_pure _

theorem keeps_mapMappedSpace (root : TablePtr) :
    Keeps (KeepsUser T P) (mapMappedSpace root) := by
  unfold mapMappedSpace
  refine keeps_forM (fun i => ?_) _
  refine keeps_bind (keeps_pageTableWalk _ _) fun _ => keeps_bind keeps_get fun _ => ?_
  exact keeps_bind (keeps_kassert _) fun _ => keeps_modify fun _ => fill rfl

theorem keeps_initTask (task : TaskPtr) (p : SpacePtr) (root table0 table1 : TablePtr) :
    Keeps (KeepsUser T P) (initTask task p root table0 table1) := by
  unfold initTask nextTid modifyTask
  refine keeps_bind keeps_get fun _ => keeps_bind (keeps_kassert _) fun _ => ?_
  refine keeps_bind (keeps_bind (keeps_modify fun _ => of_eq rfl) fun _ =>
    keeps_bind keeps_get fun _ => keeps_pure _) fun tid => ?_
  refine keeps_bind (keeps_modify fun _ => of_eq rfl) fun _ => ?_
  refine keeps_bind (keeps_modify fun _ => zeroTable) fun _ => ?_
  refine keeps_bind (keeps_mapMappedSpace _) fun _ => ?_
  refine keeps_bind (keeps_modify fun _ => .trans zeroTable zeroTable) fun _ => ?_
  refine keeps_bind (keeps_pageTableWalk _ _) fun _ => keeps_bind keeps_get fun _ => ?_
  refine keeps_bind (keeps_kassert _) fun _ => ?_
  refine keeps_bind (keeps_modify fun _ => fill rfl) fun _ => ?_
  refine keeps_bind (keeps_extendCapSpace _ _) fun _ => keeps_ite (keeps_stop _) ?_
  refine keeps_bind (keeps_insertCapSpace _ _) fun _ => keeps_ite (keeps_stop _) ?_
  exact keeps_modify fun _ => of_eq rfl

theorem keeps_initIdleTask (task : TaskPtr) (root : TablePtr) :
    Keeps (KeepsUser T P) (initIdleTask task root) := by
  unfold initIdleTask modifyTask
  refine keeps_bind keeps_get fun _ => keeps_bind (keeps_kassert _) fun _ => ?_
  refine keeps_bind (keeps_modify fun _ => of_eq rfl) fun _ => ?_
  refine keeps_bind (keeps_modify fun _ => zeroTable) fun _ => ?_
  exact keeps_bind (keeps_mapMappedSpace _) fun _ => keeps_modify fun _ => of_eq rfl

theorem keeps_setupRootTask : Keeps (KeepsUser T P) (setupRootTask boot) := by
  unfold setupRootTask
  refine keeps_bind (keeps_modify fun _ => of_eq rfl) fun _ => ?_
  refine keeps_bind (keeps_initTask _ _ _ _ _) fun _ => ?_
  refine keeps_bind (keeps_forM (fun _ => keeps_bind (keeps_insertCapSpace _ _) fun _ =>
    keeps_ite (keeps_stop _) (keeps_pure _)) _) fun _ => ?_
  refine keeps_bind (keeps_insertRootCap _ _) fun _ => ?_
  refine keeps_bind (keeps_forM (fun _ => keeps_insertRootCap _ _) _) fun _ => ?_
  refine keeps_bind (keeps_makePageTableCap _ _ _ _ _) fun _ => ?_
  refine keeps_bind (keeps_insertRootCap _ _) fun _ => ?_
  refine keeps_bind (keeps_makePageTableCap _ _ _ _ _) fun _ => ?_
  refine keeps_bind (keeps_insertRootCap _ _) fun _ => ?_
  exact keeps_bind (keeps_makePageTableCap _ _ _ _ _) fun _ => keeps_insertRootCap _ _

theorem keeps_setupMemoryCapabilities : Keeps (KeepsUser T P) (setupMemoryCapabilities boot) := by
  refine keeps_forM (fun _ => keeps_bind ?_ fun _ => keeps_insertRootCap _ _) _
  exact keeps_bind (keeps_kassert _) fun _ => keeps_bind (keeps_kassert _) fun _ => keeps_pure _

/-- The entry of a table keeps its flag, so it was none for the user. -/
theorem keeps_mapRootTable {va level : Nat} {table next : TablePtr} (ht : ¬ T table) :
    Keeps (KeepsUser T P) (mapRootTable boot va level table next) := by
  unfold mapRootTable
  refine keeps_bind (keeps_pageTableWalk _ _) fun _ => keeps_bind keeps_get fun _ => ?_
  refine keeps_bind (keeps_kassert _) fun _ => keeps_bind (keeps_modify fun k => ?_) fun _ => ?_
  · exact setPte fun hk hu => absurd (hk table _ hu).1 ht
  · exact keeps_bind (keeps_makePageTableCap _ _ _ _ _) fun _ => keeps_insertRootCap _ _

end KeepsUser

/-! ### The pages of the root task -/

theorem Kernel.UserOnly.wp_keeps {α : Type} {m : K α} (h : k.UserOnly T P)
    (hm : Prog.Keeps (KeepsUser T P) m) {Q : α → Kernel → Prop}
    (hQ : ∀ b k', k'.UserOnly T P → Q b k') : wp m env Q (fun _ _ => True) k :=
  hm.wp (fun b k' hk => hQ b k' (hk h)) fun _ _ _ => trivial

/-- A page is mapped, and its address is in range, else the run stops. -/
theorem Kernel.UserOnly.wp_mapRootPage (h : k.UserOnly T P) {table : TablePtr} {flags : PteFlags}
    {va : Nat} {page : PhysAddr} (ht : T table)
    (hpage : page < CONFIG_MAX_PHYSICAL_ADDRESS → P (storedPage page)) :
    wp (mapRootPage boot table flags va page) (.debug cfg) (fun _ k' => k'.UserOnly T P)
      (fun _ _ => True) k := by
  unfold mapRootPage makeVirtPageCap
  rw [wp_bind]
  refine h.wp_keeps (keeps_pageTableWalk _ _) fun index k₁ h₁ => ?_
  simp only [wp_bind, wp_get]
  refine h₁.wp_keeps (keeps_kassert _) fun _ k₂ h₂ => ?_
  simp only [wp_modify, wp_kassert, wp_pure]
  split
  · rename_i hrange
    have h₃ := KeepsUser.setPte (t := table) (i := index)
      (e := (k₂.pte table index).fill flags page) (fun _ _ => ⟨ht, hpage hrange⟩) h₂
    split
    · exact h₃.wp_keeps (KeepsUser.keeps_insertRootCap _ _) fun _ _ h₄ => h₄
    · trivial
  · trivial

/-- A loop that maps pages. -/
theorem Kernel.UserOnly.wp_mapRootPages (h : k.UserOnly T P) {table : TablePtr} {flags : PteFlags}
    {base start n : Nat} (ht : T table)
    (hpages : ∀ j < n, start + PAGE_SIZE * j < CONFIG_MAX_PHYSICAL_ADDRESS →
      P (storedPage (start + PAGE_SIZE * j))) :
    wp (forM (fun j => mapRootPage boot table flags (base + PAGE_SIZE * j) (start + PAGE_SIZE * j))
      (List.range n)) (.debug cfg) (fun _ k' => k'.UserOnly T P) (fun _ _ => True) k := by
  refine wp_forM (fun done rest k' => done ++ rest = List.range n ∧ k'.UserOnly T P)
    (fun _ _ h => h.2) ?_ (List.range n) [] k ⟨rfl, h⟩
  rintro done j rest k' ⟨hdone, hk'⟩
  have hj : j < n := by
    have hmem : j ∈ List.range n := by
      rw [← hdone]
      simp
    exact List.mem_range.mp hmem
  exact wp_mono (hk'.wp_mapRootPage ht (hpages j hj)) (fun _ _ hk => ⟨by simpa using hdone, hk⟩)
    fun _ _ h => h

namespace BootInfo

variable (boot)

/-- The tables that the pages of the root task are mapped in. -/
def LeafTable (table : TablePtr) : Prop :=
  table = boot.payload.pageTable0 ∨ table = boot.stack.pageTable0

/-- A page that the root task has a capability for. -/
def HasPage (a : PhysAddr) : Prop := ∃ v, .virtPage v ∈ boot.caps ∧ storedPage v.physAddr = a

variable {boot}

/-- Tables of two levels are two tables. -/
theorem WellFormed.table_ne (hwf : boot.WellFormed) {p q : PageTableCap}
    (hp : .pageTable p ∈ boot.caps) (hq : .pageTable q ∈ boot.caps) (h : p.level ≠ q.level) :
    p.table ≠ q.table := by
  have hapart := hwf.apart_of_ne hp hq fun heq => h (congrArg PageTableCap.level
    (Capability.pageTable.inj heq))
  intro heq
  have hlt : ∀ table : TablePtr, ¬ table + PAGE_SIZE ≤ table := fun table =>
    Nat.not_le.mpr (Nat.lt_add_of_pos_right (by decide))
  unfold Region.Apart Capability.region at hapart
  simp only [heq] at hapart
  exact hapart.elim (hlt _) (hlt _)

theorem hasPage_of_mem {table : TablePtr} {flags : PteFlags} {base start n j : Nat}
    (hsub : rootPageCaps table flags base start n ⊆ boot.caps) (hj : j < n)
    (hrange : start + PAGE_SIZE * j < CONFIG_MAX_PHYSICAL_ADDRESS) :
    boot.HasPage (storedPage (start + PAGE_SIZE * j)) := by
  refine ⟨_, hsub (List.mem_map_of_mem (List.mem_range.mpr hj)), ?_⟩
  show storedPage ((start + PAGE_SIZE * j) % CONFIG_MAX_PHYSICAL_ADDRESS) = _
  rw [Nat.mod_eq_of_lt hrange]

theorem payload_caps : boot.payload.caps boot.rootPageTable ⊆ boot.caps := by
  intro c hc
  simp only [caps, List.mem_append]
  exact Or.inl (Or.inl (Or.inr hc))

theorem stack_caps : boot.stack.caps boot.rootPageTable ⊆ boot.caps := by
  intro c hc
  simp only [caps, List.mem_append]
  exact Or.inl (Or.inr hc)

theorem dtb_caps : rootPageCaps boot.payload.pageTable0 (.userPage true false false)
    (boot.payload.base + boot.payload.region.size) boot.dtb.start boot.dtb.numPages ⊆ boot.caps := by
  intro c hc
  simp only [caps, List.mem_append]
  exact Or.inr hc

end BootInfo

/-! ### Regions -/

/-- All addresses of the first region are addresses of the second one. -/
structure Region.Within (r r' : Region) : Prop where
  low : r'.start ≤ r.start
  high : r.start + r.size ≤ r'.start + r'.size

theorem Region.Within.refl (r : Region) : r.Within r := ⟨Nat.le_refl _, Nat.le_refl _⟩

theorem Region.Within.trans {r r' r'' : Region} (h : r.Within r') (h' : r'.Within r'') :
    r.Within r'' := ⟨Nat.le_trans h'.low h.low, Nat.le_trans h.high h'.high⟩

theorem NewObject.within {device : Bool} {base size alignment : Nat} {c : Capability}
    (h : NewObject device base size alignment c) : c.region.Within ⟨base, size⟩ := by
  cases h <;> exact .refl _

/-- A capability yields none for memory outside of its own. -/
theorem Capability.Yields.within {c c' : Capability} (h : c.Yields c') :
    c'.region.Within c.region := by
  induction h with
  | memory _ low high => exact ⟨low, high⟩
  | carved object low high _ ih =>
    have hcarved : Region.Within ⟨_, _⟩ (Capability.memory _).region := ⟨low, high⟩
    exact (ih.trans object.within).trans hcarved
  | task => exact .refl _
  | endpoint => exact .refl _
  | pageTable table =>
    exact ⟨Nat.le_of_eq table.symm, Nat.le_of_eq (congrArg (· + PAGE_SIZE) table)⟩
  | virtPage _ level physAddr =>
    exact ⟨Nat.le_of_eq physAddr.symm,
      Nat.le_of_eq (congrArg₂ (fun page level => page + getPageSize level) physAddr level)⟩
  | capSpace space =>
    exact ⟨Nat.le_of_eq space.symm, Nat.le_of_eq (congrArg (· + PAGE_SIZE) space)⟩

open BootInfo

variable (hwf : boot.WellFormed)
include hwf

/-- A table above those of the pages is none of them. -/
theorem not_leafTable {p : PageTableCap} (hp : .pageTable p ∈ boot.caps) (h : p.level ≠ 0) :
    ¬ boot.LeafTable p.table :=
  not_or.mpr
    ⟨hwf.table_ne hp (payload_caps (List.mem_cons_of_mem _ List.mem_cons_self)) h,
      hwf.table_ne hp (stack_caps (List.mem_cons_of_mem _ List.mem_cons_self)) h⟩

/-- `map_root_task`. -/
theorem wp_mapRootTask_userOnly {mapping : RootMapping}
    (h : k.UserOnly boot.LeafTable boot.HasPage) (hleaf : boot.LeafTable mapping.pageTable0)
    (hsub : mapping.caps boot.rootPageTable ⊆ boot.caps) {Q : Unit → Kernel → Prop}
    (hQ : ∀ k', k'.UserOnly boot.LeafTable boot.HasPage → Q () k') :
    wp (mapRootTask boot mapping) (.debug cfg) Q (fun _ _ => True) k := by
  have hroot : ¬ boot.LeafTable boot.rootPageTable :=
    not_leafTable hwf (p := ⟨true, 2, 0, boot.rootPageTable, none⟩)
      (by simp [BootInfo.caps, BootInfo.tableCaps]) (Nat.succ_ne_zero 1)
  have htable : ¬ boot.LeafTable mapping.pageTable1 :=
    not_leafTable hwf (hsub List.mem_cons_self) (Nat.succ_ne_zero 0)
  unfold mapRootTask
  rw [wp_bind]
  refine h.wp_keeps (keeps_modify fun _ => .trans .zeroTable .zeroTable) fun _ k₁ h₁ => ?_
  rw [wp_bind]
  refine h₁.wp_keeps (KeepsUser.keeps_mapRootTable hroot) fun _ k₂ h₂ => ?_
  rw [wp_bind]
  refine h₂.wp_keeps (KeepsUser.keeps_mapRootTable htable) fun _ k₃ h₃ => ?_
  refine wp_mono (h₃.wp_mapRootPages hleaf fun j hj hrange => ?_) (fun _ => hQ) fun _ _ h => h
  exact hasPage_of_mem (fun c hc => hsub (List.mem_cons_of_mem _ (List.mem_cons_of_mem _ hc)))
    hj hrange

theorem wp_setup_userOnly : wp (setup boot) (.debug cfg)
    (fun _ k' => k'.UserOnly boot.LeafTable boot.HasPage) (fun _ _ => True) .powerOn := by
  have hpower : Kernel.powerOn.UserOnly boot.LeafTable boot.HasPage := fun _ _ hu =>
    absurd hu Bool.false_ne_true
  unfold setup
  rw [wp_bind]
  refine hpower.wp_keeps KeepsUser.keeps_setupRootTask fun _ k₁ h₁ => ?_
  rw [wp_bind]
  refine h₁.wp_keeps KeepsUser.keeps_setupMemoryCapabilities fun _ k₂ h₂ => ?_
  rw [wp_bind]
  refine wp_mapRootTask_userOnly hwf h₂ (Or.inl rfl) payload_caps fun k₃ h₃ => ?_
  rw [wp_bind]
  refine wp_mapRootTask_userOnly hwf h₃ (Or.inr rfl) stack_caps fun k₄ h₄ => ?_
  rw [wp_bind]
  refine wp_mono (h₄.wp_mapRootPages (Or.inl rfl) fun j hj hrange =>
    hasPage_of_mem dtb_caps hj hrange)
    (fun _ k₅ h₅ => ?_) fun _ _ h => h
  unfold setupIdleTask
  rw [wp_bind]
  have hidle : Keeps (KeepsUser boot.LeafTable boot.HasPage)
      (modify fun k => { k with idleTask := boot.idleTask } : K Unit) :=
    keeps_modify fun _ => .of_eq rfl
  refine h₅.wp_keeps hidle fun _ k₆ h₆ => ?_
  exact h₆.wp_keeps (KeepsUser.keeps_initIdleTask _ _) fun _ _ h => h

/-- At the end of boot the user reaches the pages of the root task only. -/
theorem setup_mapsAt (hsetup : setup boot (.debug cfg) .powerOn = .ok () k)
    (h : k.store.MapsAt t i a) : boot.HasPage a := by
  obtain ⟨huser, hpage⟩ := h
  have huser : (k.pte t i).u = true := by
    have hboth : ((k.pte t i).v && (k.pte t i).u) = true := huser
    exact (Bool.and_eq_true _ _ ▸ hboth).2
  exact hpage ▸ (wp_ok (wp_setup_userOnly hwf) hsetup t i huser).2

end Caprese
