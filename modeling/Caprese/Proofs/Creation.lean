import Caprese.Proofs.Extensions
import Caprese.Proofs.Transfer

/-!
# `Caprese.Proofs.Creation`: which calls of `create_object` fail cleanly

The loop over the tables of a new task leaves itself at a table that does not fit, and not the
`switch`: `create_task_object` then runs, and asserts that all tables fit. It also asserts that the
entries it fills are free, which does not hold if one table is given twice. Of the other calls only
those fail whose object lies outside the physical memory (`create_clean_iff`).
-/

set_option autoImplicit false

namespace Caprese

open Lib Prog Chains

variable {cfg : Config} {env : Env} {k k' k₁ : Kernel} {t : TaskPtr} {x y s : SlotPtr}
  {m : MemoryCap} {size alignment desc : Nat} {type : CapType} {args : List Nat}
  {E : Stop → Kernel → Prop}

/-! ### Memory -/

/-- The request is not refused: the object fits into what is left, computed with wrap-around. -/
def MemoryCap.Passes (cap : MemoryCap) (size alignment : Nat) : Prop :=
  size ≠ 0 ∧
  size ≤ (cap.physAddr + cap.size + 2 ^ 64 - cap.baseAddr alignment) % 2 ^ 64

/-- The request passes, and the new memory capability cannot hold its address or its size. -/
def MemoryCap.Overruns (cap : MemoryCap) (request : Option (Nat × Nat)) : Prop :=
  ∃ size alignment, request = some (size, alignment) ∧ cap.Passes size alignment ∧
    ¬ (cap.baseAddr alignment < CONFIG_MAX_PHYSICAL_ADDRESS ∧ size < CONFIG_MAX_PHYSICAL_ADDRESS)

theorem MemoryCap.overruns_some : m.Overruns (some (size, alignment)) ↔
    m.Passes size alignment ∧ ¬ (m.baseAddr alignment < CONFIG_MAX_PHYSICAL_ADDRESS ∧
      size < CONFIG_MAX_PHYSICAL_ADDRESS) := by
  constructor
  · rintro ⟨_, _, heq, hover⟩
    obtain ⟨rfl, rfl⟩ := Prod.mk.inj (Option.some.inj heq)
    exact hover
  · exact fun hover => ⟨_, _, rfl, hover⟩

theorem MemoryCap.not_overruns_none : ¬ m.Overruns none := fun ⟨_, _, heq, _⟩ => nomatch heq

theorem wp_checkUnused_holds {Q : Unit → Kernel → Prop} (h : Popped k t y k₁) (hQ : Q () k₁) :
    wp (checkUnused y) env Q E k₁ := by
  obtain ⟨hnull, hlinks⟩ := h.inv.isolated y rfl
  obtain ⟨hprev, hnext⟩ := Links.isList_singleton.mp hlinks
  unfold checkUnused
  rw [wp_bind, wp_get]
  refine wp_kassert_holds ?_ hQ
  have hcap : (k₁.slots y).cap = .null := hnull
  have hprev : (k₁.slots y).prev = none := hprev
  have hnext : (k₁.slots y).next = none := hnext
  simp [CapSlot.isUnused, CapSlot.isIsolated, hcap, hprev, hnext, getCapType]

/-- A call for memory ends in one of three ways, by the request alone. -/
theorem wp_createMemoryObject_cases (hbound : 0 < cfg.loopBound) (h : Popped k t y k₁)
    (hx : k.cap x = .memory m) {Q : Option SlotPtr → Kernel → Prop}
    (hover : m.Overruns (some (size, alignment)) → ∀ e k', E e k')
    (hnone : ¬ m.Overruns (some (size, alignment)) → ¬ m.Grants size alignment → ∀ k',
      Popped k t y k' → Q none k')
    (hsome : ¬ m.Overruns (some (size, alignment)) → m.Grants size alignment → ∀ k',
      k'.cap y = newMemory m size (m.baseAddr alignment) → Q (some y) k') :
    wp (createMemoryObject y x size alignment) (.debug cfg) Q E k₁ := by
  have hx₁ : k₁.cap x = .memory m := by rw [h.cap, hx]
  have hxy : x ≠ y := h.ne (by simp [hx])
  obtain ⟨a, b, hl⟩ := h.exists_chain (x := x) (by simp [hx])
  rw [MemoryCap.overruns_some] at hover hnone hsome
  unfold createMemoryObject
  rw [wp_bind]
  refine wp_memoryCap hx₁ ?_
  rw [wp_bind]
  refine wp_checkUnused_holds h ?_
  rw [wp_ite]
  split
  · rename_i hsize
    exact hnone (fun hover => hover.1.1 hsize) (fun hgrants => hgrants.1 hsize) _ (h.errno _)
  · rename_i hsize
    dsimp only
    rw [wp_ite]
    split
    · rename_i hrem
      exact hnone (fun hover => Nat.not_lt.mpr hover.1.2 hrem)
        (fun hgrants => Nat.not_lt.mpr hgrants.2.1 hrem) _ (h.errno _)
    · rename_i hrem
      have hpasses : m.Passes size alignment := ⟨hsize, Nat.le_of_not_lt hrem⟩
      -- Past the checks the two fields are stored, and `make_memory_cap` asserts that they fit.
      unfold makeMemoryCap storeCap
      simp only [wp_bind, wp_kassert]
      split
      · rename_i hbase
        split
        · rename_i hsize'
          simp only [wp_pure, wp_modify]
          refine h.wp_derive (by simp) (fun hzero => absurd hzero (Nat.ne_of_gt hbound)) (by simp)
            hl fun k' _ hstore => ?_
          refine hsome (fun hover => hover.2 ⟨hbase, hsize'⟩)
            ⟨hpasses.1, hpasses.2, hbase, hsize'⟩ k' ?_
          have hcap : k'.cap = upd (upd k.cap y _) x _ := congrArg CapStore.cap hstore
          rw [hcap, upd_ne _ _ (Ne.symm hxy), upd_same, Nat.mod_eq_of_lt hbase,
            Nat.mod_eq_of_lt hsize']
          rfl
        · rename_i hsize'
          exact hover ⟨hpasses, fun hlt => hsize' hlt.2⟩ _ _
      · rename_i hbase
        exact hover ⟨hpasses, fun hlt => hbase hlt.1⟩ _ _

theorem wp_createKernelObject_cases (hbound : 0 < cfg.loopBound) (h : Popped k t y k₁)
    (hx : k.cap x = .memory m) {Q : Option PhysAddr → Kernel → Prop}
    (hover : m.Overruns (kernelRequest m.device size) → ∀ e k', E e k')
    (hnone : ¬ m.Overruns (kernelRequest m.device size) →
      ¬ (m.device = false ∧ m.Grants size size) → ∀ k', Popped k t y k' → Q none k')
    (hsome : ¬ m.Overruns (kernelRequest m.device size) → m.device = false ∧ m.Grants size size →
      ∀ base k', k'.cap y = newMemory m size base → Q (some base) k') :
    wp (createKernelObject y x size size) (.debug cfg) Q E k₁ := by
  have hx₁ : k₁.cap x = .memory m := by rw [h.cap, hx]
  unfold createKernelObject
  rw [wp_bind]
  refine wp_memoryCap hx₁ ?_
  rw [wp_bind]
  refine wp_checkUnused_holds h ?_
  rw [wp_ite]
  unfold kernelRequest at hover hnone hsome
  split
  · rename_i hdevice
    rw [if_pos hdevice] at hnone
    refine hnone MemoryCap.not_overruns_none (fun hgrants => ?_) _ (h.errno _)
    exact absurd (hdevice.symm.trans hgrants.1) (by decide)
  · rename_i hdevice
    rw [if_neg hdevice] at hover hnone hsome
    rw [wp_bind]
    refine wp_createMemoryObject_cases hbound h hx hover
      (fun hfits hrefused => hnone hfits fun hgrants => hrefused hgrants.2)
      fun hfits hgrants k' hcap => ?_
    dsimp only
    rw [wp_bind]
    exact wp_memoryCap hcap (hsome hfits ⟨by simpa using hdevice, hgrants⟩ _ k' hcap)

/-! ### The objects of the other types -/

/-- The capability is for what the call asked for. -/
def Requested (type : CapType) (args : List Nat) (c : Capability) : Prop :=
  match type with
  | .mem => ∃ m, c = .memory m ∧ m.size = args.getD 0 0
  | .virtPage => ∃ p, c = .virtPage p ∧ p.level = args.getD 3 0 ∧
      (p.readable = true ↔ args.getD 0 0 ≠ 0) ∧ (p.writable = true ↔ args.getD 1 0 ≠ 0) ∧
      (p.executable = true ↔ args.getD 2 0 ≠ 0)
  | type => getCapType c = type

/-- What the `switch` ends in, where it does not fail. -/
def SwitchEnds (k : Kernel) (t : TaskPtr) (y : SlotPtr) (type : CapType) (args : List Nat) :
    Option SlotPtr → Kernel → Prop
  | none, k' => Popped k t y k'
  | some z, k' => k.cap z = .null ∧ Requested type args (k'.cap z)

section Objects

variable (hbound : 0 < cfg.loopBound) (h : Popped k t y k₁) (hx : k.cap x = .memory m)

include hbound h hx

theorem createMemory_ends : wp (createMemoryObject y x (args.getD 0 0) (args.getD 1 0)) (.debug cfg)
    (fun r k' => ¬ m.Overruns (objectRequest m.device .mem args) ∧ SwitchEnds k t y .mem args r k')
    (fun _ _ => m.Overruns (objectRequest m.device .mem args)) k₁ :=
  wp_createMemoryObject_cases hbound h hx (fun hover _ _ => hover)
    (fun hfits _ _ hk' => ⟨hfits, hk'⟩) fun hfits _ _ hcap => ⟨hfits, h.null, _, hcap, rfl⟩

theorem createEndpoint_ends : wp (createEndpointObject y x) (.debug cfg)
    (fun r k' => ¬ m.Overruns (objectRequest m.device .endpoint args) ∧
      SwitchEnds k t y .endpoint args r k')
    (fun _ _ => m.Overruns (objectRequest m.device .endpoint args)) k₁ := by
  unfold createEndpointObject storeCap
  rw [wp_bind]
  refine wp_createKernelObject_cases hbound h hx (fun hover _ _ => hover)
    (fun hfits _ _ hk' => ⟨hfits, hk'⟩) fun hfits _ base k' _ => ?_
  dsimp only
  rw [wp_bind, wp_modify, wp_bind, wp_modify]
  refine ⟨hfits, h.null, ?_⟩
  rw [Kernel.setCap_cap, upd_same]
  rfl

theorem createPageTable_ends : wp (createPageTableObject y x) (.debug cfg)
    (fun r k' => ¬ m.Overruns (objectRequest m.device .pageTable args) ∧
      SwitchEnds k t y .pageTable args r k')
    (fun _ _ => m.Overruns (objectRequest m.device .pageTable args)) k₁ := by
  unfold createPageTableObject makePageTableCap storeCap
  rw [wp_bind]
  refine wp_createKernelObject_cases hbound h hx (fun hover _ _ => hover)
    (fun hfits _ _ hk' => ⟨hfits, hk'⟩) fun hfits _ base k' _ => ?_
  dsimp only
  rw [wp_bind, wp_modify, wp_bind, wp_bind]
  refine wp_kassert_holds (Or.inl rfl) ?_
  rw [wp_bind]
  refine wp_kassert_holds (Or.inl rfl) ?_
  rw [wp_pure, wp_bind, wp_modify]
  refine ⟨hfits, h.null, ?_⟩
  rw [Kernel.setCap_cap, upd_same]
  rfl

theorem createCapSpace_ends : wp (createCapSpaceObject y x) (.debug cfg)
    (fun r k' => ¬ m.Overruns (objectRequest m.device .capSpace args) ∧
      SwitchEnds k t y .capSpace args r k')
    (fun _ _ => m.Overruns (objectRequest m.device .capSpace args)) k₁ := by
  unfold createCapSpaceObject storeCap
  rw [wp_bind]
  refine wp_createKernelObject_cases hbound h hx (fun hover _ _ => hover)
    (fun hfits _ _ hk' => ⟨hfits, hk'⟩) fun hfits _ base k' _ => ?_
  dsimp only
  rw [wp_bind, wp_modify, wp_bind, wp_modify]
  refine ⟨hfits, h.null, ?_⟩
  rw [Kernel.setCap_cap, upd_same]
  rfl

theorem createVirtPage_ends : wp (createVirtPageObject y x (args.getD 0 0 ≠ 0) (args.getD 1 0 ≠ 0)
      (args.getD 2 0 ≠ 0) (args.getD 3 0)) (.debug cfg)
    (fun r k' => ¬ m.Overruns (objectRequest m.device .virtPage args) ∧
      SwitchEnds k t y .virtPage args r k')
    (fun _ _ => m.Overruns (objectRequest m.device .virtPage args)) k₁ := by
  have hx₁ : k₁.cap x = .memory m := by rw [h.cap, hx]
  unfold createVirtPageObject makeVirtPageCap storeCap
  rw [wp_bind]
  refine wp_memoryCap hx₁ ?_
  rw [wp_bind]
  refine wp_checkUnused_holds h ?_
  rw [wp_ite]
  split
  · rename_i hlevel
    have hnone : objectRequest m.device .virtPage args = none := if_neg (Nat.not_le.mpr hlevel)
    rw [hnone]
    exact ⟨MemoryCap.not_overruns_none, h.errno _⟩
  · rename_i hlevel
    have hlevel : args.getD 3 0 ≤ MAX_PAGE_TABLE_LEVEL := Nat.le_of_not_lt hlevel
    have hrequest : objectRequest m.device .virtPage args
        = some (getPageSize (args.getD 3 0), getPageSize (args.getD 3 0)) := if_pos hlevel
    rw [hrequest, wp_bind]
    refine wp_createMemoryObject_cases hbound h hx (fun hover _ _ => hover)
      (fun hfits _ _ hk' => ⟨hfits, hk'⟩) fun hfits hgrants k' hcap => ?_
    dsimp only
    rw [wp_bind]
    refine wp_memoryCap hcap ?_
    rw [wp_bind, wp_bind]
    refine wp_kassert_holds hgrants.2.2.1 ?_
    rw [wp_bind]
    refine wp_kassert_holds hlevel ?_
    rw [wp_pure, wp_bind, wp_modify]
    refine ⟨hfits, h.null, ?_⟩
    rw [Kernel.setCap_cap, upd_same]
    refine ⟨_, rfl, Nat.mod_eq_of_lt (Nat.lt_of_le_of_lt hlevel (by decide)), ?_, ?_, ?_⟩ <;>
    exact decide_eq_true_iff

end Objects

/-! ### `init_task` -/

variable {root table0 table1 : TablePtr} {space : SpacePtr}

/-- The window goes into entries of the root table that were free. -/
theorem wp_mapMappedSpace_holds {Q : Unit → Kernel → Prop}
    (hfree : ∀ i < 64, (k.pte root (128 + i)).isEnabled = false)
    (hQ : ∀ tables, (∀ i, ¬ (128 ≤ i ∧ i < 192) → tables root i = k.pageTables root i) →
      Q () (k.setTables tables)) :
    wp (mapMappedSpace root) env Q E k := by
  unfold mapMappedSpace
  refine wp_forM (fun done rest k' => done ++ rest = List.range 64 ∧ ∃ tables,
    k' = k.setTables tables ∧
    (∀ i, ¬ (128 ≤ i ∧ i < 192) → tables root i = k.pageTables root i) ∧
    ∀ i ∈ rest, tables root (128 + i) = k.pageTables root (128 + i)) ?_ ?_ _ [] k ?_
  · rintro _ _ ⟨-, tables, rfl, hkept, -⟩
    exact hQ tables hkept
  · rintro done i rest _ ⟨hall, tables, rfl, hkept, hrest⟩
    have hi : i < 64 := List.mem_range.mp (hall ▸ List.mem_append_right done List.mem_cons_self)
    have hindex : getPageTableIndex (CONFIG_MAPPED_SPACE_BASE
        + getPageSize MAX_PAGE_TABLE_LEVEL * i) MAX_PAGE_TABLE_LEVEL = 128 + i := by
      show (2 ^ 37 + 4096 * 2 ^ (9 * 2) * i) / 2 ^ (12 + 9 * 2) % 512 = 128 + i
      omega
    have hnew : i ∉ rest := by
      have hnodup : (done ++ i :: rest).Nodup := hall ▸ List.nodup_range
      exact (List.nodup_cons.mp (List.nodup_append.mp hnodup).2.1).1
    dsimp only
    rw [wp_bind]
    refine wp_pageTableWalk_inside ?_ (Nat.le_refl _) ?_
    · show 2 ^ 37 + 4096 * 2 ^ (9 * 2) * i < 2 ^ 38
      omega
    rw [hindex, wp_bind, wp_get, wp_bind]
    refine wp_kassert_holds ?_ ?_
    · rw [Pte.isDisabled_iff]
      show (tables root (128 + i)).isEnabled = false
      rw [hrest i List.mem_cons_self]
      exact hfree i hi
    · refine ⟨by rw [List.append_assoc]; exact hall, setEntry tables root (128 + i) _, rfl,
        fun j hj => ?_, fun j hj => ?_⟩
      · rw [setEntry_apply, if_neg fun heq => hj ⟨by omega, by omega⟩]
        exact hkept j hj
      · have hne : j ≠ i := fun heq => hnew (heq ▸ hj)
        rw [setEntry_apply, if_neg fun heq => hne (by omega)]
        exact hrest j (List.mem_cons_of_mem i hj)
  · exact ⟨rfl, k.pageTables, rfl, fun _ _ => rfl, fun _ _ => rfl⟩

/-- The tables of a task lead to the table for its first space, which has no entry yet if it is not
the table above it. -/
structure FirstTables (k : Kernel) (t : TaskPtr) (table0 table1 : TablePtr) : Prop where
  count : (k.tasks t).capCount = ⟨0, 1⟩
  used : (k.tasks t).state ≠ .unused
  top : Leads k (k.tasks t).rootPageTable 192 table1
  mid : Leads k table1 0 table0
  leaf : (k.pte table0 0).isEnabled = false ↔ table0 ≠ table1

/-- The descent to the table for the first space. -/
theorem FirstTables.wp_walkEnabled (h : FirstTables k t table0 table1)
    {Q : TablePtr → Kernel → Prop} (hQ : Q table0 k) :
    wp (walkEnabled (capSpaceAddr 0) [MAX_PAGE_TABLE_LEVEL, MEGA_PAGE_TABLE_LEVEL]
      (k.tasks t).rootPageTable) env Q E k := by
  have hva : capSpaceAddr 0 < CONFIG_MAX_VIRTUAL_ADDRESS := by decide
  exact wp_walkEnabled_cons hva (Nat.le_refl _) h.top (wp_walkEnabled_cons hva (by decide) h.mid hQ)

theorem wp_insertCapSpace_first (h : FirstTables k t table0 table1) {Q : Bool → Kernel → Prop}
    (hsame : table0 = table1 → ∀ e k', E e k') (hQ : table0 ≠ table1 → ∀ k', Q true k') :
    wp (insertCapSpace t space) (.debug cfg) Q E k := by
  have hkilo : getPageTableIndex (CONFIG_CAPABILITY_SPACE_BASE + PAGE_SIZE * 0)
      KILO_PAGE_TABLE_LEVEL = 0 := by decide
  unfold insertCapSpace
  rw [wp_bind, wp_get]
  dsimp only
  rw [wp_ite, h.count, if_neg (by decide), wp_bind, wp_get, wp_bind]
  refine h.wp_walkEnabled ?_
  rw [wp_bind]
  refine wp_pageTableWalk_inside (by decide) (by decide) ?_
  dsimp only
  rw [hkilo, wp_bind, wp_get, wp_bind]
  by_cases htables : table0 = table1
  · rw [wp_kassert, if_neg]
    · exact hsame htables _ _
    · rw [Pte.isDisabled_iff, h.leaf]
      exact fun hne => hne htables
  · refine wp_kassert_holds ?_ ?_
    · rw [Pte.isDisabled_iff, h.leaf]
      exact htables
    rw [wp_bind, wp_modify, wp_ite, if_pos rfl, wp_bind, wp_modify, wp_bind, wp_modify, wp_bind]
    refine wp_pushSlots_runs (fun s hs => (mem_spaceSlots.mp hs).1) ?_ h.used fun k' => hQ htables _
    exact congrArg MetaInfo.task (upd_same _ _ _)

/-- The table for the first spaces goes into the table above it. -/
theorem wp_extendCapSpace_first (hcount : (k.tasks t).capCount = ⟨0, 0⟩)
    (hused : (k.tasks t).state ≠ .unused) (h0 : IsPage table0)
    (htop : Leads k (k.tasks t).rootPageTable 192 table1)
    (hfree0 : (k.pte table0 0).isEnabled = false) (hfree1 : (k.pte table1 0).isEnabled = false)
    {Q : Option Nat → Kernel → Prop}
    (hQ : ∀ va k', FirstTables k' t table0 table1 → Q (some va) k') :
    wp (extendCapSpace t table0) env Q E k := by
  -- With no extension yet the walk goes through entry 192 of the root to entry 0.
  have hgiga : getPageTableIndex (CONFIG_CAPABILITY_SPACE_BASE
      + PAGE_SIZE * NUM_PAGE_TABLE_ENTRY * 0) GIGA_PAGE_TABLE_LEVEL = 192 := by decide
  have hmega : getPageTableIndex (CONFIG_CAPABILITY_SPACE_BASE
      + PAGE_SIZE * NUM_PAGE_TABLE_ENTRY * 0) MEGA_PAGE_TABLE_LEVEL = 0 := by decide
  unfold extendCapSpace
  rw [wp_bind, wp_get]
  dsimp only
  rw [wp_ite, hcount, if_neg (by decide), wp_bind, wp_get, wp_bind]
  refine wp_walkEnabled_cons (by decide) (by decide) (?_ : Leads k _ _ table1) ?_
  · rw [hgiga]
    exact htop
  show wp (pageTableWalk _ _ >>= _) _ _ _ _
  rw [wp_bind]
  refine wp_pageTableWalk_inside (by decide) (by decide) ?_
  dsimp only
  rw [hmega, wp_bind, wp_get, wp_bind]
  refine wp_kassert_holds (Pte.isDisabled_iff.mpr hfree1) ?_
  rw [wp_bind, wp_modify, wp_bind, wp_modify]
  generalize hk₁ : k.setPte table1 0 _ = k₁
  have htask : k₁.tasks = k.tasks := hk₁ ▸ rfl
  have htop₁ : Leads k₁ (k.tasks t).rootPageTable 192 table1 :=
    hk₁ ▸ htop.setPte fun heq => nomatch heq.2
  have hmid₁ : Leads k₁ table1 0 table0 := hk₁ ▸ leads_fill h0
  refine hQ _ _ ⟨?_, ?_, ?_, hmid₁, ?_⟩
  · show (upd k₁.tasks t _ t).capCount = _
    rw [upd_same, htask, hcount]
    rfl
  · show (upd k₁.tasks t _ t).state ≠ _
    rw [upd_same, htask]
    exact hused
  · show Leads k₁ (upd k₁.tasks t _ t).rootPageTable 192 table1
    rw [upd_same, htask]
    exact htop₁
  · show (k₁.pte table0 0).isEnabled = false ↔ _
    constructor
    -- One table given twice would now have its first entry in use.
    · rintro hfree rfl
      exact absurd (hmid₁.1.symm.trans hfree) (by decide)
    · intro hne
      rw [← hk₁]
      show (upd k.pageTables table1 _ table0 0).isEnabled = false
      rw [upd_ne _ _ hne]
      exact hfree0

theorem wp_initTask_cases (hunused : (k.tasks t).state = .unused) (h0 : IsPage table0)
    (h1 : IsPage table1) {Q : Unit → Kernel → Prop} (hsame : table0 = table1 → ∀ e k', E e k')
    (hQ : table0 ≠ table1 → ∀ k', Q () k') :
    wp (initTask t space root table0 table1) (.debug cfg) Q E k := by
  unfold initTask nextTid modifyTask
  rw [wp_bind, wp_get, wp_bind]
  refine wp_kassert_holds hunused ?_
  rw [wp_bind, wp_bind, wp_modify, wp_bind, wp_get, wp_pure, wp_bind, wp_modify, wp_bind, wp_modify,
    wp_bind]
  generalize hk₁ : Kernel.mapTask _ t _ = k₁
  have htask : (k₁.tasks t).capCount = ⟨0, 0⟩ ∧ (k₁.tasks t).state = .suspended ∧
      (k₁.tasks t).rootPageTable = root := by
    rw [← hk₁]
    simp [Kernel.mapTask]
  have hzero : ∀ i, (k₁.zeroTable root).pageTables root i = Pte.zero := fun i => by
    show upd k₁.pageTables root _ root i = _
    rw [upd_same]
  refine wp_mapMappedSpace_holds (fun i _ => ?_) fun tables hkept => ?_
  · show ((k₁.zeroTable root).pageTables root (128 + i)).isEnabled = false
    rw [hzero]
    rfl
  rw [wp_bind, wp_modify, wp_bind]
  generalize hk₂ : Kernel.zeroTable _ table1 = k₂
  -- All entries that are filled next are free: the tables were zeroed before.
  have hempty : ∀ table i, table = table0 ∨ table = table1 ∨ table = root ∧ i = 192 →
      k₂.pte table i = Pte.zero := by
    intro table i htable
    rw [← hk₂]
    show upd (upd tables table0 fun _ => Pte.zero) table1 (fun _ => Pte.zero) table i = Pte.zero
    simp only [upd_apply]
    split
    · rfl
    · split
      · rfl
      · obtain ⟨rfl, rfl⟩ : table = root ∧ i = 192 := by
          rcases htable with h | h | h
          · exact absurd h (by assumption)
          · exact absurd h (by assumption)
          · exact h
        exact (hkept 192 (by decide)).trans (hzero 192)
  have htask₂ : k₂.tasks = k₁.tasks := hk₂ ▸ rfl
  refine wp_pageTableWalk_inside (by decide) (by decide) ?_
  rw [show getPageTableIndex CONFIG_CAPABILITY_SPACE_BASE GIGA_PAGE_TABLE_LEVEL = 192 by decide,
    wp_bind, wp_get, wp_bind]
  refine wp_kassert_holds ?_ ?_
  · rw [hempty root 192 (Or.inr (Or.inr ⟨rfl, rfl⟩))]
    rfl
  rw [wp_bind, wp_modify, wp_bind]
  generalize hk₃ : Kernel.setPte k₂ root 192 _ = k₃
  have htask₃ : k₃.tasks = k₁.tasks := hk₃ ▸ htask₂
  have hfree : ∀ table, table = table0 ∨ table = table1 → (k₃.pte table 0).isEnabled = false := by
    intro table htable
    rw [← hk₃]
    show (setEntry k₂.pageTables root 192 _ table 0).isEnabled = false
    rw [setEntry_apply, if_neg fun heq => absurd heq.2 (by decide)]
    show (k₂.pte table 0).isEnabled = false
    rw [hempty table 0 (htable.imp_right Or.inl)]
    rfl
  refine wp_extendCapSpace_first ?_ ?_ h0 (?_ : Leads k₃ _ 192 table1) (hfree _ (Or.inl rfl))
    (hfree _ (Or.inr rfl)) fun va k₄ h₄ => ?_
  · rw [htask₃, htask.1]
  · rw [htask₃, htask.2.1]
    exact fun h => absurd h (by decide)
  · rw [htask₃, htask.2.2, ← hk₃]
    exact leads_fill h1
  · rw [wp_ite, if_neg (by simp), wp_bind]
    refine wp_insertCapSpace_first h₄ hsame fun hne k₅ => ?_
    rw [wp_ite, if_neg (by simp), wp_modify]
    exact hQ hne _

/-! ### `create_task_object` -/

/-- The slot holds the page table `c`, which is not mapped. -/
def UnmappedAt (k : Kernel) (slot : Option SlotPtr) (c : PageTableCap) : Prop :=
  ∃ s, slot = some s ∧ k.cap s = .pageTable c ∧ c.mapped = false

theorem unmappedAt_none {c : PageTableCap} : ¬ UnmappedAt k none c := fun ⟨_, heq, _⟩ => nomatch heq

theorem unmappedAt_some {c : PageTableCap} :
    UnmappedAt k (some s) c ↔ k.cap s = .pageTable c ∧ c.mapped = false := by
  constructor
  · rintro ⟨s', heq, hc⟩
    obtain rfl := Option.some.inj heq
    exact hc
  · exact fun hc => ⟨s, rfl, hc⟩

theorem UnmappedAt.inj {slot : Option SlotPtr} {c d : PageTableCap} (hc : UnmappedAt k slot c)
    (hd : UnmappedAt k slot d) : c = d := by
  obtain ⟨s, rfl, hs, -⟩ := hc
  exact Capability.pageTable.inj (hs.symm.trans (unmappedAt_some.mp hd).1)

/-- The creation of a task out of `m` stops at these slots for the tables of its capability space.
One of them is no table that is free, or the memory cannot hold the task, or it can, and both slots
give the same table. -/
def AdoptFails (k : Kernel) (m : MemoryCap) (slot0 slot1 : Option SlotPtr) : Prop :=
  (¬ ∃ c, UnmappedAt k slot0 c) ∨ (¬ ∃ c, UnmappedAt k slot1 c) ∨
  m.Overruns (kernelRequest m.device PAGE_SIZE) ∨
  m.device = false ∧ m.Grants PAGE_SIZE PAGE_SIZE ∧
    ∃ c0 c1, UnmappedAt k slot0 c0 ∧ UnmappedAt k slot1 c1 ∧ c0.table = c1.table

theorem wp_unmappedTable_cases {slot : Option SlotPtr} {Q : SlotPtr → Kernel → Prop}
    (hbad : (¬ ∃ c, UnmappedAt k slot c) → ∀ e k', E e k')
    (hQ : ∀ s c, slot = some s → k.cap s = .pageTable c → UnmappedAt k slot c → Q s k) :
    wp (unmappedTable slot) (.debug cfg) Q E k := by
  unfold unmappedTable
  cases slot with
  | none =>
    rw [wp_bind, wp_kassert, if_neg (by simp)]
    exact hbad (fun ⟨_, hc⟩ => unmappedAt_none hc) _ _
  | some s =>
    rw [wp_bind]
    refine wp_kassert_holds (by simp) ?_
    rw [wp_bind, wp_deref]
    unfold pageTableCap
    dsimp only
    rw [wp_bind, wp_bind, wp_get]
    cases hs : k.cap s with
    | pageTable c =>
      dsimp only
      rw [wp_pure, wp_bind, wp_kassert]
      split
      · rename_i hmapped
        exact hQ s c rfl hs (unmappedAt_some.mpr ⟨hs, hmapped⟩)
      · rename_i hmapped
        refine hbad ?_ _ _
        rintro ⟨d, hd⟩
        obtain ⟨hs', hfree⟩ := unmappedAt_some.mp hd
        obtain rfl := Capability.pageTable.inj (hs.symm.trans hs')
        exact hmapped hfree
    | _ => exact hbad (fun ⟨d, hd⟩ => nomatch hs.symm.trans (unmappedAt_some.mp hd).1) _ _

theorem wp_pageTableCap_holds {c : PageTableCap} {Q : PageTableCap → Kernel → Prop}
    (hs : k.cap s = .pageTable c) (hQ : Q c k) : wp (pageTableCap s) env Q E k := by
  unfold pageTableCap
  rw [wp_bind, wp_get, hs]
  exact hQ

theorem UnmappedAt.congr {slot : Option SlotPtr} (hcap : k'.cap = k.cap) :
    UnmappedAt k' slot = UnmappedAt k slot := by
  unfold UnmappedAt
  rw [hcap]

theorem AdoptFails.congr {slot0 slot1 : Option SlotPtr} (hcap : k'.cap = k.cap) :
    AdoptFails k' m slot0 slot1 = AdoptFails k m slot0 slot1 := by
  unfold AdoptFails
  rw [UnmappedAt.congr hcap, UnmappedAt.congr hcap]

/-- The end of `create_task_object`, in a task that is all zero. -/
theorem wp_startTask_cases {rootSlot slot0 slot1 : SlotPtr} {task : TaskPtr} (h0 : IsPage table0)
    (h1 : IsPage table1) {f f0 f1 : PageTableCap → PageTableCap}
    {Q : Option SlotPtr → Kernel → Prop} (hsame : table0 = table1 → ∀ e k', E e k')
    (hQ : table0 ≠ table1 → ∀ k', getCapType (k'.cap y) = .task → Q (some y) k') :
    wp (do
        modify fun k : Kernel => k.setTask task Task.zero
        initTask task space root table0 table1
        storeCap y (makeTaskCap task)
        modifyPageTableCap rootSlot f
        modifyPageTableCap slot0 f0
        modifyPageTableCap slot1 f1
        return some y) (.debug cfg) Q E k := by
  -- The records of the three tables are stored behind the task, and not over it.
  have hadopt : ∀ {slot : SlotPtr} {f : PageTableCap → PageTableCap} {Q : Unit → Kernel → Prop}
      {k : Kernel}, getCapType (k.cap y) = .task →
      (∀ k', getCapType (k'.cap y) = .task → Q () k') →
      wp (modifyPageTableCap slot f) (.debug cfg) Q E k := by
    intro slot f Q k hy hQ
    unfold modifyPageTableCap storeCap
    rw [wp_bind, wp_get]
    cases hs : k.cap slot with
    | pageTable c =>
      have hne : y ≠ slot := by
        rintro rfl
        rw [hs] at hy
        exact nomatch hy
      refine hQ _ ?_
      rw [Kernel.setCap_cap, upd_ne _ _ hne]
      exact hy
    | _ => exact hQ k hy
  rw [wp_bind, wp_modify, wp_bind]
  refine wp_initTask_cases ?_ h0 h1 hsame fun hne k₁ => ?_
  · rw [Kernel.setTask_tasks, upd_same]
    rfl
  unfold storeCap
  rw [wp_bind, wp_modify, wp_bind]
  refine hadopt (by rw [Kernel.setCap_cap, upd_same]; rfl) fun k₂ h₂ => ?_
  rw [wp_bind]
  refine hadopt h₂ fun k₃ h₃ => ?_
  rw [wp_bind]
  exact hadopt h₃ fun k₄ h₄ => hQ hne k₄ h₄

theorem createTaskObject_ends {capSpaceSlot rootSlot : SlotPtr} {slot0 slot1 : Option SlotPtr}
    {p : CapSpaceCap} {r : PageTableCap} (hbound : 0 < cfg.loopBound) (h : Popped k t y k₁)
    (hx : k.cap x = .memory m) (hm : MemInv k.store) (hspace : k.cap capSpaceSlot = .capSpace p)
    (hroot : UnmappedAt k (some rootSlot) r) :
    wp (createTaskObject y x capSpaceSlot rootSlot slot0 slot1) (.debug cfg)
      (fun answer k' => ¬ AdoptFails k m slot0 slot1 ∧ SwitchEnds k t y .task args answer k')
      (fun _ _ => AdoptFails k m slot0 slot1) k₁ := by
  have hcap := h.cap
  have hx₁ : k₁.cap x = .memory m := by rw [hcap, hx]
  unfold createTaskObject
  rw [wp_bind]
  refine wp_memoryCap hx₁ ?_
  rw [wp_bind]
  refine wp_checkUnused_holds h ?_
  unfold capSpaceCap
  rw [wp_bind, wp_bind, wp_get, hcap, hspace]
  dsimp only
  rw [wp_pure, wp_bind]
  rw [← UnmappedAt.congr hcap] at hroot
  refine wp_unmappedTable_cases (fun hbad => absurd ⟨r, hroot⟩ hbad) fun rs cr hrs hcr _ => ?_
  rw [wp_bind]
  refine wp_unmappedTable_cases (fun hbad _ _ => ?_) fun s0 c0 hs0 hc0 hfree0 => ?_
  · rw [UnmappedAt.congr hcap] at hbad
    exact Or.inl hbad
  rw [wp_bind]
  refine wp_unmappedTable_cases (fun hbad _ _ => ?_) fun s1 c1 hs1 hc1 hfree1 => ?_
  · rw [UnmappedAt.congr hcap] at hbad
    exact Or.inr (Or.inl hbad)
  rw [UnmappedAt.congr hcap] at hfree0 hfree1
  rw [wp_bind]
  refine wp_pageTableCap_holds hcr ?_
  rw [wp_bind]
  refine wp_pageTableCap_holds hc0 ?_
  rw [wp_bind]
  refine wp_pageTableCap_holds hc1 ?_
  rw [wp_bind]
  rw [hcap] at hc0 hc1
  -- With both tables given, only the memory and the equality of the tables are left to decide.
  have hfails : AdoptFails k m slot0 slot1 ↔ m.Overruns (kernelRequest m.device PAGE_SIZE) ∨
      m.device = false ∧ m.Grants PAGE_SIZE PAGE_SIZE ∧ c0.table = c1.table := by
    constructor
    · rintro (hbad | hbad | hover | ⟨hdevice, hgrants, d0, d1, hd0, hd1, htables⟩)
      · exact absurd ⟨c0, hfree0⟩ hbad
      · exact absurd ⟨c1, hfree1⟩ hbad
      · exact Or.inl hover
      · obtain rfl := hd0.inj hfree0
        obtain rfl := hd1.inj hfree1
        exact Or.inr ⟨hdevice, hgrants, htables⟩
    · rintro (hover | ⟨hdevice, hgrants, htables⟩)
      · exact Or.inr (Or.inr (Or.inl hover))
      · exact Or.inr (Or.inr (Or.inr ⟨hdevice, hgrants, c0, c1, hfree0, hfree1, htables⟩))
  rw [hfails]
  refine wp_createKernelObject_cases hbound h hx (fun hover _ _ => Or.inl hover)
    (fun hfits hrefused k₂ hk₂ => ⟨?_, hk₂⟩) fun hfits hgrants base k₂ hk₂ => ?_
  · rintro (hover | ⟨hdevice, hgrants, -⟩)
    · exact hfits hover
    · exact hrefused ⟨hdevice, hgrants⟩
  dsimp only
  refine wp_startTask_cases (hm.aligned s0 c0 hc0) (hm.aligned s1 c1 hc1)
    (fun hsame _ _ => Or.inr ⟨hgrants.1, hgrants.2, hsame⟩) fun hne k₃ hk₃ => ⟨?_, h.null, hk₃⟩
  rintro (hover | ⟨-, -, hsame⟩)
  · exact hfits hover
  · exact hne hsame

/-! ### The descriptors of a new task -/

/-- `lookup_cap` runs into no assertion, as the number of the spaces is in its range. -/
theorem wp_lookupCap_holds (hcount : (k.tasks t).capCount.numCapSpace < MAX_NUM_CAP_SPACE)
    {Q : Option SlotPtr → Kernel → Prop}
    (hsome : ∀ s, k.findCap t desc = some s → Q (some s) k)
    (hnone : k.findCap t desc = none → ∀ e, Q none { k with errno := e }) :
    wp (lookupCap t desc) env Q E k := by
  unfold lookupCap
  rw [wp_bind, wp_get, wp_ite]
  split
  · rename_i hdead
    exact hnone (if_pos (Or.inl hdead)) _
  · rename_i hdead
    rw [wp_ite]
    split
    · rename_i hdesc
      exact hnone (if_pos (Or.inr hdesc)) _
    · rename_i hdesc
      have hfind : k.findCap t desc = _ := if_neg (not_or.mpr ⟨hdead, hdesc⟩)
      unfold capSpaceAddr at hfind
      -- The walk stays inside the address space, as every space has a place there.
      have hspace : desc / NUM_SLOTS < NUM_PAGE_TABLE_ENTRY * NUM_PAGE_TABLE_ENTRY := by
        refine Nat.lt_trans (Nat.div_lt_of_lt_mul ?_) hcount
        rw [Nat.mul_comm]
        exact Nat.lt_of_not_le hdesc
      rw [wp_bind]
      refine wp_walkMapped_inside (capSpaceAddr_lt hspace) (by decide) ?_
      cases hpage : k.findPage (CONFIG_CAPABILITY_SPACE_BASE + PAGE_SIZE * (desc / NUM_SLOTS))
          [MAX_PAGE_TABLE_LEVEL, MEGA_PAGE_TABLE_LEVEL, KILO_PAGE_TABLE_LEVEL]
          (k.tasks t).rootPageTable with
      | none =>
        rw [hpage] at hfind
        exact hnone hfind _
      | some space =>
        simp only [hpage] at hfind
        simp only [wp_bind, wp_get, wp_ite, wp_setErrno, wp_pure]
        split
        · rename_i hnull
          refine hnone ?_ _
          rw [hfind, if_pos]
          cases hcap : k.cap ⟨space, desc % NUM_SLOTS⟩ <;> simp_all [getCapType]
        · rename_i hnull
          refine hsome _ ?_
          rw [hfind, if_neg]
          intro heq
          exact hnull (by rw [heq]; rfl)

/-- One turn of the loop finds what the descriptor stands for, and goes on if it is a free table. -/
theorem wp_lookupTable_holds (hcount : (k.tasks t).capCount.numCapSpace < MAX_NUM_CAP_SPACE)
    {Q : Option SlotPtr × Bool → Kernel → Prop}
    (hgood : ∀ c, UnmappedAt k (k.findCap t desc) c → Q (k.findCap t desc, true) k)
    (hbad : (¬ ∃ c, UnmappedAt k (k.findCap t desc) c) →
      ∀ e, Q (k.findCap t desc, false) { k with errno := e }) :
    wp (lookupTable t desc) env Q E k := by
  unfold lookupTable
  rw [wp_bind]
  refine wp_lookupCap_holds hcount (fun s hs => ?_) fun hs e => ?_
  · rw [hs] at hgood hbad
    dsimp only
    rw [wp_bind, wp_get]
    cases hc : k.cap s with
    | pageTable c =>
      dsimp only
      rw [wp_ite]
      split
      · rename_i hmapped
        refine hbad ?_ _
        rintro ⟨d, hd⟩
        obtain ⟨hs', hfree⟩ := unmappedAt_some.mp hd
        obtain rfl := Capability.pageTable.inj (hc.symm.trans hs')
        exact absurd (hmapped.symm.trans hfree) (by decide)
      · rename_i hmapped
        exact hgood c (unmappedAt_some.mpr ⟨hc, Bool.of_not_eq_true hmapped⟩)
    | _ => exact hbad (fun ⟨d, hd⟩ => nomatch hc.symm.trans (unmappedAt_some.mp hd).1) _
  · rw [hs] at hbad
    exact hbad (fun ⟨_, hd⟩ => unmappedAt_none hd) _

/-- The creation of a task stops: its space and its root table are given, and its other tables or
the memory do not fit. -/
def TaskFails (k : Kernel) (t : TaskPtr) (m : MemoryCap) (args : List Nat) : Prop :=
  (∃ s p, k.findCap t (args.getD 0 0) = some s ∧ k.cap s = .capSpace p) ∧
  (∃ c, UnmappedAt k (k.findCap t (args.getD 1 0)) c) ∧
  AdoptFails k m (k.findCap t (args.getD 2 0)) (k.findCap t (args.getD 3 0))

theorem createTask_ends (hbound : 0 < cfg.loopBound) (h : Popped k t y k₁)
    (hx : k.cap x = .memory m) (hm : MemInv k.store)
    (hcount : (k.tasks t).capCount.numCapSpace < MAX_NUM_CAP_SPACE) :
    wp (createTask t y x args) (.debug cfg)
      (fun answer k' => ¬ TaskFails k t m args ∧ SwitchEnds k t y .task args answer k')
      (fun _ _ => TaskFails k t m args) k₁ := by
  have hfind : ∀ desc, k₁.findCap t desc = k.findCap t desc := fun desc =>
    findCap_congr (congrArg CapStore.tables h.store) h.cap (h.tasks t).1 (h.tasks t).2.1
      (h.tasks t).2.2 desc
  have hcount₁ : (k₁.tasks t).capCount.numCapSpace < MAX_NUM_CAP_SPACE := by
    rw [(h.tasks t).2.2]
    exact hcount
  unfold createTask
  rw [wp_bind]
  refine wp_lookupCap_holds hcount₁ (fun cs hcs => ?_) fun hcs e => ?_
  swap
  · refine ⟨?_, h.errno _⟩
    rintro ⟨⟨s, p, hs, -⟩, -⟩
    cases hcs.symm.trans ((hfind _).trans hs)
  dsimp only
  rw [wp_bind, wp_get, wp_ite]
  split
  · rename_i htype
    refine ⟨?_, h.errno _⟩
    rintro ⟨⟨s, p, hs, hp⟩, -⟩
    obtain rfl := Option.some.inj (hcs.symm.trans ((hfind _).trans hs))
    refine htype ?_
    rw [h.cap, hp]
    rfl
  -- A capability of another type is refused, and no fields of it are read.
  rename_i htype
  obtain ⟨p, hp⟩ : ∃ p, k.cap cs = .capSpace p := by
    rw [h.cap, not_not] at htype
    cases hc : k.cap cs <;> simp_all [getCapType]
  rw [wp_bind]
  refine wp_lookupCap_holds hcount₁ (fun r hr => ?_) fun hr e => ?_
  swap
  · refine ⟨?_, h.errno _⟩
    rintro ⟨-, ⟨c, hc⟩, -⟩
    rw [← hfind, hr] at hc
    exact unmappedAt_none hc
  dsimp only
  rw [wp_bind, wp_get]
  have hroot : ∀ {c}, UnmappedAt k (k.findCap t (args.getD 1 0)) c → k₁.cap r = .pageTable c ∧
      c.mapped = false := by
    intro c hc
    rw [← hfind, hr] at hc
    rw [h.cap]
    exact unmappedAt_some.mp hc
  cases hc : k₁.cap r with
  | pageTable c =>
    dsimp only
    rw [wp_ite]
    split
    · rename_i hmapped
      refine ⟨?_, h.errno _⟩
      rintro ⟨-, ⟨d, hd⟩, -⟩
      obtain ⟨hd, hfree⟩ := hroot hd
      obtain rfl := Capability.pageTable.inj (hc.symm.trans hd)
      exact absurd (hmapped.symm.trans hfree) (by decide)
    · rename_i hmapped
      have hfree : UnmappedAt k (some r) c :=
        unmappedAt_some.mpr ⟨by rw [← h.cap, hc], Bool.of_not_eq_true hmapped⟩
      have hfails : TaskFails k t m args
          ↔ AdoptFails k m (k.findCap t (args.getD 2 0)) (k.findCap t (args.getD 3 0)) := by
        refine ⟨fun hfails => hfails.2.2, fun hfails => ⟨⟨cs, p, ?_, hp⟩, ⟨c, ?_⟩, hfails⟩⟩
        · rw [← hfind]
          exact hcs
        · rw [← hfind, hr]
          exact hfree
      rw [hfails, wp_bind]
      refine wp_lookupTable_holds hcount₁ (fun c0 hc0 => ?_) fun hbad e => ?_
      · dsimp only
        rw [wp_ite, if_pos rfl, wp_bind]
        refine wp_lookupTable_holds hcount₁ (fun c1 hc1 => ?_) fun hbad e => ?_
        · rw [hfind, hfind]
          exact createTaskObject_ends hbound h hx hm hp hfree
        · rw [hfind, hfind]
          exact createTaskObject_ends hbound (h.errno e) hx hm hp hfree
      · dsimp only
        rw [hfind] at hbad
        rw [UnmappedAt.congr h.cap] at hbad
        -- The loop has left itself: the second table is not looked up, and the first is unfit.
        have hleft : AdoptFails k m (k.findCap t (args.getD 2 0)) (k.findCap t (args.getD 3 0))
            ↔ AdoptFails k m (k.findCap t (args.getD 2 0)) none :=
          iff_of_true (Or.inl hbad) (Or.inl hbad)
        rw [wp_ite, if_neg (by decide), hfind, hleft, wp_bind, wp_pure]
        exact createTaskObject_ends hbound (h.errno e) hx hm hp hfree
  | _ =>
    refine ⟨?_, h.errno _⟩
    rintro ⟨-, ⟨d, hd⟩, -⟩
    cases hc.symm.trans (hroot hd).1

/-! ### The claim -/

/-- `create_object` stops: it gets a slot, and the `switch` stops. -/
def CreateFails (k : Kernel) (x : SlotPtr) (type : CapType) (args : List Nat) : Prop :=
  ∃ m, k.cap x = .memory m ∧ ¬ NoSlot k k.currentTask ∧
    if type = .task then TaskFails k k.currentTask m args
    else m.Overruns (objectRequest m.device type args)

/-- What a creation that does not stop ends in: an empty slot now holds the object, or there is
nothing new in the store, and the slots are in order. -/
def CreateEnds (k : Kernel) (type : CapType) (args : List Nat) : Option SlotPtr → Kernel → Prop
  | none, k' => StoreInv k' ∅ ∧ k'.store = k.store
  | some y, k' => k.cap y = .null ∧ Requested type args (k'.cap y)

/-- The call returns, with the object or without a trace. -/
def CreatesCleanly (cfg : Config) (k : Kernel) (x : SlotPtr) (type : CapType) (args : List Nat) :
    Prop :=
  ∃ answer k', createObject k.currentTask x type args (.debug cfg) k = .ok answer k' ∧
    CreateEnds k type args answer k'

/-- The condition of the `switch` for each type. -/
theorem createObjectOf_ends (hbound : 0 < cfg.loopBound) (h : Popped k t y k₁)
    (hx : k.cap x = .memory m) (hm : MemInv k.store)
    (hcount : (k.tasks t).capCount.numCapSpace < MAX_NUM_CAP_SPACE) {F : Prop}
    (hF : F ↔ if type = .task then TaskFails k t m args
      else m.Overruns (objectRequest m.device type args)) :
    wp (createObjectOf t y x type args) (.debug cfg)
      (fun answer k' => ¬ F ∧ SwitchEnds k t y type args answer k') (fun _ _ => F) k₁ := by
  rw [hF]
  cases type with
  | mem => exact createMemory_ends hbound h hx
  | task => exact createTask_ends hbound h hx hm hcount
  | endpoint => exact createEndpoint_ends hbound h hx
  | pageTable => exact createPageTable_ends hbound h hx
  | virtPage => exact createVirtPage_ends hbound h hx
  | capSpace => exact createCapSpace_ends hbound h hx
  | null => exact ⟨MemoryCap.not_overruns_none, h⟩
  | id => exact ⟨MemoryCap.not_overruns_none, h⟩
  | zombie => exact ⟨MemoryCap.not_overruns_none, h⟩
  | unknown => exact ⟨MemoryCap.not_overruns_none, h⟩

theorem wp_createObject_cases (hbound : 0 < cfg.loopBound) (h : KernelInv k)
    (hcount : (k.tasks k.currentTask).capCount.numCapSpace < MAX_NUM_CAP_SPACE) :
    wp (createObject k.currentTask x type args) (.debug cfg)
      (fun answer k' => ¬ CreateFails k x type args ∧ CreateEnds k type args answer k')
      (fun _ _ => CreateFails k x type args) k := by
  have herrno : ∀ e : SysError, CreateEnds k type args none { k with errno := e } := fun e =>
    ⟨(does_errno h.links e).inv, rfl⟩
  unfold createObject
  rw [wp_bind, wp_get, wp_bind]
  refine wp_kassert_holds rfl ?_
  rw [wp_bind, wp_get, wp_ite]
  split
  · rename_i hmem
    refine ⟨?_, herrno _⟩
    rintro ⟨m, hx, -⟩
    exact hmem (by rw [hx]; rfl)
  rename_i hmem
  obtain ⟨m, hx⟩ : ∃ m, k.cap x = .memory m := by
    cases hx : k.cap x <;> simp_all [getCapType]
  rw [wp_bind, wp_get, wp_ite]
  split
  · rename_i hdead
    refine ⟨?_, herrno _⟩
    rintro ⟨-, -, hslot, -⟩
    exact hslot (Or.inl hdead)
  rename_i halive
  have hused : (k.tasks k.currentTask).state ≠ .unused := fun heq => halive (Or.inl heq)
  rw [wp_bind, wp_popFreeSlots h.links hused]
  cases hs : (k.tasks k.currentTask).freeSlots with
  | none =>
    refine ⟨?_, herrno _⟩
    rintro ⟨-, -, hslot, -⟩
    exact hslot (Or.inr hs)
  | some y =>
    have hy : Popped k k.currentTask y (k.popped k.currentTask y) := h.links.popped_spec hused hs
    -- The capability and the slot are there, so only the condition of the `switch` is left.
    have hF : CreateFails k x type args ↔ if type = .task then TaskFails k k.currentTask m args
        else m.Overruns (objectRequest m.device type args) := by
      constructor
      · rintro ⟨m', hx', -, hfails⟩
        obtain rfl := Capability.memory.inj (hx.symm.trans hx')
        exact hfails
      · refine fun hfails => ⟨m, hx, ?_, hfails⟩
        rintro (hdead | hnone)
        · exact halive hdead
        · cases hs.symm.trans hnone
    dsimp only
    rw [wp_bind]
    refine wp_mono (createObjectOf_ends hbound hy hx h.store.mem hcount hF)
      (fun answer k₂ hk₂ => ?_) fun _ _ hfails => hfails
    obtain ⟨hfits, hends⟩ := hk₂
    cases answer with
    | none =>
      dsimp only
      rw [wp_bind]
      exact Popped.pushBack hends fun k₃ hinv hstore => ⟨hfits, hinv, hstore⟩
    | some z => exact ⟨hfits, hends⟩

/-- A creation is clean unless its memory capability cannot hold the address and the size of the
object, or, for a task whose space and root table are in order, another table is missing or given
twice. The number of spaces of a task is a bit field. -/
theorem create_clean_iff (hbound : 0 < cfg.loopBound) (h : KernelInv k)
    (hcount : (k.tasks k.currentTask).capCount.numCapSpace < MAX_NUM_CAP_SPACE) :
    CreatesCleanly cfg k x type args ↔ ¬ CreateFails k x type args := by
  have hwp := @wp_createObject_cases cfg k x type args hbound h hcount
  constructor
  · rintro ⟨answer, k', hrun, -⟩
    exact (wp_ok hwp hrun).1
  · intro hfits
    obtain ⟨answer, k', hrun, -, hends⟩ :=
      wp_returns (wp_mono hwp (fun _ _ hQ => hQ) fun _ _ hfails => hfits hfails)
    exact ⟨answer, k', hrun, hends⟩

/-- An endpoint is made of the root task's memory. -/
theorem create_clean_iff_endpoint : ∃ k, Reaches sampleConfig sampleBoot Safe k ∧
    CreatesCleanly sampleConfig k (sampleSlot 6) .endpoint [] := by
  obtain ⟨k, hreach, hcap, hcount⟩ := @sample_reaches Safe _
    [sampleTurn (.createObject (sampleSlot 6) .mem [0, 0])]
    (fun k => k.cap (sampleSlot 6) = .memory ⟨false, 0x40000, 0x1000, 0⟩ ∧
      (k.tasks k.currentTask).capCount.numCapSpace < MAX_NUM_CAP_SPACE) _ (by decide +kernel)
  have hinv : KernelInv k := hreach.kernelInv fun _ _ hok => hok
  refine ⟨k, hreach, (create_clean_iff (by decide) hinv hcount).mpr ?_⟩
  rintro ⟨m, hm, -, hover⟩
  obtain rfl := Capability.memory.inj (hcap.symm.trans hm)
  exact (MemoryCap.overruns_some.mp hover).2 (by decide)

/-- The root task makes a space and a table, and asks for a task with the descriptor of an empty
slot for the table of the capability space. -/
theorem create_task_stops : ¬ ∀ (cfg : Config) (boot : BootInfo) (k : Kernel) (x : SlotPtr)
    (type : CapType) (args : List Nat), 0 < cfg.loopBound → Reaches cfg boot Safe k →
    (k.tasks k.currentTask).capCount.numCapSpace < MAX_NUM_CAP_SPACE →
    CreatesCleanly cfg k x type args := by
  intro hclaim
  obtain ⟨k, hreach, hcount, hstops⟩ := @sample_reaches Safe _
    [sampleTurn (.createObject (sampleSlot 6) .capSpace []),
      sampleTurn (.createObject (sampleSlot 6) .pageTable [])]
    (fun k => (k.tasks k.currentTask).capCount.numCapSpace < MAX_NUM_CAP_SPACE ∧
      (createObject k.currentTask (sampleSlot 6) .task [11, 12, 0, 0] (.debug sampleConfig) k).stops
        (fun _ _ => true) = true) _ (by decide +kernel)
  obtain ⟨answer, k', hrun, -⟩ :=
    hclaim sampleConfig sampleBoot k (sampleSlot 6) .task [11, 12, 0, 0] (by decide) hreach hcount
  rw [hrun] at hstops
  exact absurd hstops (by simp [Outcome.stops])

end Caprese
