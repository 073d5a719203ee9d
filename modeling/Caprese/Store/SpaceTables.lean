import Caprese.Store.CreateTask

/-!
# `Caprese.Store.SpaceTables`: the tables of a task's capability spaces

A task finds its capability spaces through three levels of tables: an entry of the root table
leads to the inner table, entry `j` of this one to the extension `j`, and entry `i` of that to
the space number `512 * j + i`. `SpaceTables k t inner exts spaces` says so. `init_task` starts
it, `extend_cap_space` adds an extension, and `insert_cap_space` a space, in every build.
-/

set_option autoImplicit false

namespace Caprese

open Lib Prog

variable {env : Env} {k k' : Kernel} {t : TaskPtr} {inner page table : TablePtr}
  {exts : List TablePtr} {spaces : List SpacePtr} {space : SpacePtr} {n index : Nat}

/-- The entry is enabled and leads to the page. -/
def Leads (k : Kernel) (table : TablePtr) (index : Nat) (page : PhysAddr) : Prop :=
  (k.pte table index).isEnabled = true ∧ (k.pte table index).getNextPage = page

/-- A page of the physical memory. -/
def IsPage (page : PhysAddr) : Prop := PAGE_SIZE ∣ page ∧ page < CONFIG_MAX_PHYSICAL_ADDRESS

instance : Decidable (IsPage page) := inferInstanceAs (Decidable (PAGE_SIZE ∣ page ∧ _))

/-- The tables of `t` lead to its capability spaces, and each of these knows its number. -/
structure SpaceTables (k : Kernel) (t : TaskPtr) (inner : TablePtr) (exts : List TablePtr)
    (spaces : List SpacePtr) : Prop where
  alive : ¬ isDead (k.tasks t)
  apart : ((k.tasks t).rootPageTable :: inner :: exts).Nodup
  top : Leads k (k.tasks t).rootPageTable 192 inner
  mid : ∀ j table, exts[j]? = some table → Leads k inner j table
  leaf : ∀ n table space, exts[n / NUM_PAGE_TABLE_ENTRY]? = some table → spaces[n]? = some space →
    Leads k table (n % NUM_PAGE_TABLE_ENTRY) space
  info : ∀ n space, spaces[n]? = some space → k.capSpaces space = ⟨some t, n⟩
  nodup : spaces.Nodup

/-- The counts of the task, within the width of their fields. -/
structure SpaceCounts (k : Kernel) (t : TaskPtr) (exts : List TablePtr) (spaces : List SpacePtr) :
    Prop where
  count : (k.tasks t).capCount = ⟨spaces.length, exts.length⟩
  few : exts.length < NUM_PAGE_TABLE_ENTRY
  room : spaces.length ≤ NUM_PAGE_TABLE_ENTRY * exts.length

/-- No entry of the inner table is in use from `n` on. -/
def Vacant (k : Kernel) (inner : TablePtr) (n : Nat) : Prop :=
  ∀ j, n ≤ j → (k.pte inner j).isEnabled = false

/-! ### What does not touch the tables -/

/-- `k'` has the tables and the spaces of `k`, and those of the task `t`. -/
structure SameSpaces (t : TaskPtr) (k k' : Kernel) : Prop where
  tables : k'.pageTables = k.pageTables
  spaces : k'.capSpaces = k.capSpaces
  root : (k'.tasks t).rootPageTable = (k.tasks t).rootPageTable
  count : (k'.tasks t).capCount = (k.tasks t).capCount
  alive : ¬ isDead (k.tasks t) → ¬ isDead (k'.tasks t)

namespace SameSpaces

theorem refl (k : Kernel) : SameSpaces t k k := ⟨rfl, rfl, rfl, rfl, id⟩

theorem trans {k'' : Kernel} (h : SameSpaces t k k') (h' : SameSpaces t k' k'') :
    SameSpaces t k k'' where
  tables := h'.tables.trans h.tables
  spaces := h'.spaces.trans h.spaces
  root := h'.root.trans h.root
  count := h'.count.trans h.count
  alive halive := h'.alive (h.alive halive)

instance : IsPreorder Kernel (SameSpaces t) where
  refl := refl
  trans _ _ _ := trans

/-- Stores outside of the tables, the spaces and the tasks. -/
theorem of_eq (htables : k'.pageTables = k.pageTables) (hspaces : k'.capSpaces = k.capSpaces)
    (htasks : k'.tasks = k.tasks) : SameSpaces t k k' :=
  ⟨htables, hspaces, by rw [htasks], by rw [htasks], by rw [htasks]; exact id⟩

/-- Stores to other fields of a task. -/
theorem setTask (k : Kernel) (u : TaskPtr) {task : Task}
    (hroot : task.rootPageTable = (k.tasks u).rootPageTable)
    (hcount : task.capCount = (k.tasks u).capCount)
    (hstate : task.state = (k.tasks u).state) : SameSpaces t k (k.setTask u task) := by
  have htask : (k.setTask u task).tasks t = if t = u then task else k.tasks t := upd_apply _ _ _ _
  refine ⟨rfl, rfl, ?_, ?_, ?_⟩ <;> rw [htask] <;> split
  · rename_i heq
    rw [heq, hroot]
  · rfl
  · rename_i heq
    rw [heq, hcount]
  · rfl
  · rename_i heq
    unfold isDead
    rw [heq, hstate]
    exact id
  · exact id

theorem keeps_pushFreeSlots (u : TaskPtr) (slot : SlotPtr) :
    Keeps (SameSpaces t) (pushFreeSlots u slot) :=
  Caprese.keeps_pushFreeSlots (fun _ _ => .of_eq rfl rfl rfl) (fun _ _ _ => setTask _ _ rfl rfl rfl)
    (fun _ _ _ => .of_eq rfl rfl rfl) slot

end SameSpaces

theorem Leads.congr (h : Leads k table index page) (htables : k'.pageTables = k.pageTables) :
    Leads k' table index page := by
  unfold Leads Kernel.pte at h ⊢
  rw [htables]
  exact h

theorem Vacant.congr (h : Vacant k inner n) (htables : k'.pageTables = k.pageTables) :
    Vacant k' inner n := by
  unfold Vacant Kernel.pte at h ⊢
  rw [htables]
  exact h

theorem SpaceTables.frame (h : SpaceTables k t inner exts spaces) (hf : SameSpaces t k k') :
    SpaceTables k' t inner exts spaces where
  alive := hf.alive h.alive
  apart := hf.root ▸ h.apart
  top := hf.root ▸ h.top.congr hf.tables
  mid j table hj := (h.mid j table hj).congr hf.tables
  leaf n table space hn hs := (h.leaf n table space hn hs).congr hf.tables
  info n space hn := hf.spaces ▸ h.info n space hn
  nodup := h.nodup

theorem SpaceCounts.frame (h : SpaceCounts k t exts spaces) (hf : SameSpaces t k k') :
    SpaceCounts k' t exts spaces := ⟨hf.count.trans h.count, h.few, h.room⟩

/-! ### Entries -/

/-- An entry that was filled. -/
theorem leads_fill {e : Pte} {flags : PteFlags} (hpage : IsPage page) :
    Leads (k.setPte table index (e.fill flags page)) table index page := by
  have hpte : (k.setPte table index (e.fill flags page)).pte table index = e.fill flags page := by
    show upd k.pageTables table (upd (k.pageTables table) index _) table index = _
    rw [upd_same, upd_same]
  unfold Leads
  rw [hpte]
  exact ⟨rfl, getNextPage_fill hpage.1 hpage.2⟩

/-- The other entries. -/
theorem Leads.setPte {table' : TablePtr} {index' : Nat} {e : Pte} (h : Leads k table index page)
    (hne : ¬ (table = table' ∧ index = index')) :
    Leads (k.setPte table' index' e) table index page := by
  have hpte : (k.setPte table' index' e).pte table index = k.pte table index := by
    show upd k.pageTables table' (upd (k.pageTables table') index' e) table index
      = k.pageTables table index
    by_cases ht : table = table'
    · subst ht
      rw [upd_same, upd_ne _ _ fun hi => hne ⟨rfl, hi⟩]
    · rw [upd_ne _ _ ht]
  unfold Leads
  rw [hpte]
  exact h

/-- An entry of another table, or one in front. -/
theorem Vacant.setPte {table' : TablePtr} {index' : Nat} {e : Pte} {m : Nat}
    (h : Vacant k inner n) (hm : n ≤ m) (hne : inner = table' → index' < m) :
    Vacant (k.setPte table' index' e) inner m := by
  intro j hj
  have hpte : (k.setPte table' index' e).pte inner j = k.pte inner j := by
    show upd k.pageTables table' (upd (k.pageTables table') index' e) inner j
      = k.pageTables inner j
    by_cases ht : inner = table'
    · have hlt := hne ht
      subst ht
      rw [upd_same, upd_ne _ _ (by omega)]
    · rw [upd_ne _ _ ht]
  rw [hpte]
  exact h j (Nat.le_trans hm hj)

/-! ### Indices -/

theorem capSpaceAddr_giga (hn : n < NUM_PAGE_TABLE_ENTRY * NUM_PAGE_TABLE_ENTRY) :
    getPageTableIndex (capSpaceAddr n) GIGA_PAGE_TABLE_LEVEL = 192 := by
  change n < 512 * 512 at hn
  show (2 ^ 37 + 2 ^ 36 + 4096 * n) / 2 ^ (12 + 9 * 2) % 512 = 192
  omega

theorem capSpaceAddr_mega (hn : n < NUM_PAGE_TABLE_ENTRY * NUM_PAGE_TABLE_ENTRY) :
    getPageTableIndex (capSpaceAddr n) MEGA_PAGE_TABLE_LEVEL = n / NUM_PAGE_TABLE_ENTRY := by
  change n < 512 * 512 at hn
  show (2 ^ 37 + 2 ^ 36 + 4096 * n) / 2 ^ (12 + 9 * 1) % 512 = n / 512
  omega

theorem capSpaceAddr_kilo :
    getPageTableIndex (capSpaceAddr n) KILO_PAGE_TABLE_LEVEL = n % NUM_PAGE_TABLE_ENTRY := by
  show (2 ^ 37 + 2 ^ 36 + 4096 * n) / 2 ^ (12 + 9 * 0) % 512 = n % 512
  omega

theorem capSpaceAddr_lt (hn : n < NUM_PAGE_TABLE_ENTRY * NUM_PAGE_TABLE_ENTRY) :
    capSpaceAddr n < CONFIG_MAX_VIRTUAL_ADDRESS := by
  change n < 512 * 512 at hn
  show 2 ^ 37 + 2 ^ 36 + 4096 * n < 2 ^ 38
  omega

theorem extensionAddr_eq : extensionAddr n = capSpaceAddr (NUM_PAGE_TABLE_ENTRY * n) := by
  show 2 ^ 37 + 2 ^ 36 + 4096 * 512 * n = 2 ^ 37 + 2 ^ 36 + 4096 * (512 * n)
  omega

/-! ### Walks in every build -/

theorem wp_pageTableWalk_any {va level : Nat} {Q : Nat → Kernel → Prop}
    (h : Q (getPageTableIndex va level) k) :
    wp (pageTableWalk va level) env Q (fun _ _ => True) k := by
  unfold pageTableWalk
  rw [wp_bind]
  refine wp_kassert_any ?_
  rw [wp_bind]
  exact wp_kassert_any h

theorem wp_pageTableWalk_inside {va level : Nat} {Q : Nat → Kernel → Prop}
    {E : Stop → Kernel → Prop}
    (hva : va < CONFIG_MAX_VIRTUAL_ADDRESS) (hlevel : level ≤ MAX_PAGE_TABLE_LEVEL)
    (hQ : Q (getPageTableIndex va level) k) : wp (pageTableWalk va level) env Q E k := by
  unfold pageTableWalk
  rw [wp_bind]
  refine wp_kassert_holds hva ?_
  rw [wp_bind]
  exact wp_kassert_holds hlevel hQ

theorem wp_walkEnabled_any {va : Nat} (levels : List Nat) {table : TablePtr}
    {Q : TablePtr → Kernel → Prop} (h : Q (k.descend va levels table) k) :
    wp (walkEnabled va levels table) env Q (fun _ _ => True) k := by
  induction levels generalizing table with
  | nil => exact h
  | cons level levels ih =>
    unfold walkEnabled
    rw [wp_bind]
    refine wp_pageTableWalk_any ?_
    rw [wp_bind, wp_get, wp_bind]
    refine wp_kassert_any ?_
    rw [wp_bind, wp_get]
    exact ih h

namespace SpaceTables

variable (h : SpaceTables k t inner exts spaces)

include h

theorem descend_inner (hn : n < NUM_PAGE_TABLE_ENTRY * NUM_PAGE_TABLE_ENTRY) :
    k.descend (capSpaceAddr n) [GIGA_PAGE_TABLE_LEVEL] (k.tasks t).rootPageTable = inner := by
  unfold Kernel.descend Kernel.descend
  rw [capSpaceAddr_giga hn]
  exact h.top.2

theorem descend_ext (hn : n < NUM_PAGE_TABLE_ENTRY * NUM_PAGE_TABLE_ENTRY)
    (hext : exts[n / NUM_PAGE_TABLE_ENTRY]? = some table) :
    k.descend (capSpaceAddr n) [MAX_PAGE_TABLE_LEVEL, MEGA_PAGE_TABLE_LEVEL]
      (k.tasks t).rootPageTable = table := by
  unfold Kernel.descend Kernel.descend Kernel.descend
  rw [show getPageTableIndex (capSpaceAddr n) MAX_PAGE_TABLE_LEVEL = 192 from capSpaceAddr_giga hn,
    h.top.2, capSpaceAddr_mega hn]
  exact (h.mid _ table hext).2

theorem root_ne : (k.tasks t).rootPageTable ≠ inner ∧
    (∀ table ∈ exts, (k.tasks t).rootPageTable ≠ table ∧ inner ≠ table) := by
  obtain ⟨hroot, hrest⟩ := List.nodup_cons.mp h.apart
  obtain ⟨hinner, -⟩ := List.nodup_cons.mp hrest
  refine ⟨fun heq => hroot (heq ▸ List.mem_cons_self), fun table ht => ⟨fun heq => ?_, fun heq => ?_⟩⟩
  · exact hroot (heq ▸ List.mem_cons_of_mem _ ht)
  · exact hinner (heq ▸ ht)

theorem exts_nodup : exts.Nodup :=
  (List.nodup_cons.mp (List.nodup_cons.mp h.apart).2).2

/-- A space more, in the next free entry. -/
theorem insert (hext : exts[spaces.length / NUM_PAGE_TABLE_ENTRY]? = some table)
    (hpage : IsPage space) (hfresh : space ∉ spaces) (e : Pte) (flags : PteFlags) :
    SpaceTables ((k.setPte table (spaces.length % NUM_PAGE_TABLE_ENTRY)
      (e.fill flags space)).setMetaInfo space ⟨some t, spaces.length⟩) t inner exts
      (spaces ++ [space]) := by
  have hmem : table ∈ exts := List.mem_of_getElem? hext
  obtain ⟨-, hne⟩ := h.root_ne
  refine ⟨h.alive, h.apart, ?_, fun j table' hj => ?_, fun n table' space' hn hs => ?_,
    fun n space' hs => ?_, ?_⟩
  · exact (h.top.setPte fun heq => (hne table hmem).1 heq.1).congr rfl
  · exact ((h.mid j table' hj).setPte fun heq => (hne table hmem).2 heq.1).congr rfl
  · by_cases hlt : n < spaces.length
    · rw [List.getElem?_append_left hlt] at hs
      refine ((h.leaf n table' space' hn hs).setPte fun heq => ?_).congr rfl
      -- Two numbers with the same table and the same entry are the same.
      have hdiv : n / NUM_PAGE_TABLE_ENTRY = spaces.length / NUM_PAGE_TABLE_ENTRY := by
        have hlt' := (List.getElem?_eq_some_iff.mp hn).1
        exact (List.getElem?_inj hlt' h.exts_nodup).mp (hn.trans (heq.1 ▸ hext.symm))
      have hmod := heq.2
      change n / 512 = spaces.length / 512 at hdiv
      change n % 512 = spaces.length % 512 at hmod
      omega
    · have hlength := (List.getElem?_eq_some_iff.mp hs).1
      rw [List.length_append, List.length_singleton] at hlength
      obtain rfl : n = spaces.length := by omega
      rw [List.getElem?_concat_length] at hs
      rw [hext] at hn
      obtain rfl := Option.some.inj hn
      obtain rfl := Option.some.inj hs
      exact (leads_fill hpage).congr rfl
  · show upd k.capSpaces space ⟨some t, spaces.length⟩ space' = ⟨some t, n⟩
    by_cases hlt : n < spaces.length
    · rw [List.getElem?_append_left hlt] at hs
      have hother : space' ≠ space := fun heq => hfresh (heq ▸ List.mem_of_getElem? hs)
      rw [upd_ne _ _ hother]
      exact h.info n space' hs
    · have hlength := (List.getElem?_eq_some_iff.mp hs).1
      rw [List.length_append, List.length_singleton] at hlength
      obtain rfl : n = spaces.length := by omega
      rw [List.getElem?_concat_length] at hs
      obtain rfl := Option.some.inj hs
      exact upd_same _ _ _
  · refine List.nodup_append.mpr ⟨h.nodup, List.nodup_singleton _, ?_⟩
    rintro a ha b hb rfl
    rw [List.mem_singleton] at hb
    exact hfresh (hb ▸ ha)

/-- An extension more. -/
theorem extend (hpage : IsPage page) (hfresh : page ∉ (k.tasks t).rootPageTable :: inner :: exts)
    (hroom : spaces.length ≤ NUM_PAGE_TABLE_ENTRY * exts.length) (e : Pte) (flags : PteFlags) :
    SpaceTables (k.setPte inner exts.length (e.fill flags page)) t inner (exts ++ [page])
      spaces := by
  obtain ⟨hroot, hne⟩ := h.root_ne
  refine ⟨h.alive, ?_, ?_, fun j table hj => ?_, fun n table space hn hs => ?_, h.info, h.nodup⟩
  · show ((k.tasks t).rootPageTable :: inner :: (exts ++ [page])).Nodup
    rw [← List.cons_append, ← List.cons_append]
    refine List.nodup_append.mpr ⟨h.apart, List.nodup_singleton _, ?_⟩
    rintro a ha b hb rfl
    rw [List.mem_singleton] at hb
    exact hfresh (hb ▸ ha)
  · exact h.top.setPte fun heq => hroot heq.1
  · by_cases hlt : j < exts.length
    · rw [List.getElem?_append_left hlt] at hj
      exact (h.mid j table hj).setPte fun heq => Nat.ne_of_lt hlt heq.2
    · have hlength := (List.getElem?_eq_some_iff.mp hj).1
      rw [List.length_append, List.length_singleton] at hlength
      obtain rfl : j = exts.length := by omega
      rw [List.getElem?_concat_length] at hj
      obtain rfl := Option.some.inj hj
      exact leads_fill hpage
  · have hlt : n / NUM_PAGE_TABLE_ENTRY < exts.length := by
      have hn' := (List.getElem?_eq_some_iff.mp hs).1
      change spaces.length ≤ 512 * exts.length at hroom
      show n / 512 < exts.length
      omega
    rw [List.getElem?_append_left hlt] at hn
    refine (h.leaf n table space hn hs).setPte fun heq => ?_
    exact (hne table (List.mem_of_getElem? hn)).2 heq.1.symm

end SpaceTables

/-! ### The operations -/

/-- The count of the task is no part of the tables. -/
theorem SpaceTables.setCount (h : SpaceTables k t inner exts spaces) (count : CapCount) :
    SpaceTables (k.setTask t { k.tasks t with capCount := count }) t inner exts spaces := by
  have htask : (k.setTask t { k.tasks t with capCount := count }).tasks t
      = { k.tasks t with capCount := count } := upd_same _ _ _
  refine ⟨?_, ?_, ?_, h.mid, h.leaf, h.info, h.nodup⟩ <;> rw [htask]
  · exact h.alive
  · exact h.apart
  · exact h.top

theorem setCount_capCount (count : CapCount) :
    ((k.setTask t { k.tasks t with capCount := count }).tasks t).capCount = count :=
  congrArg Task.capCount (upd_same _ _ _)

theorem SpaceCounts.length_lt (hc : SpaceCounts k t exts spaces) :
    spaces.length < NUM_PAGE_TABLE_ENTRY * NUM_PAGE_TABLE_ENTRY := by
  have hfew := hc.few
  have hroom := hc.room
  change exts.length < 512 at hfew
  change spaces.length ≤ 512 * exts.length at hroom
  show spaces.length < 512 * 512
  omega

/-- `insert_cap_space` where there is room: the space gets the next number. -/
theorem wp_insertCapSpace_tables (h : SpaceTables k t inner exts spaces)
    (hc : SpaceCounts k t exts spaces) (hpage : IsPage space) (hfresh : space ∉ spaces)
    (hroom : spaces.length < NUM_PAGE_TABLE_ENTRY * exts.length) {Q : Bool → Kernel → Prop}
    (hQ : ∀ k', SpaceTables k' t inner exts (spaces ++ [space]) →
      SpaceCounts k' t exts (spaces ++ [space]) →
      (Vacant k inner exts.length → Vacant k' inner exts.length) → Q true k') :
    wp (insertCapSpace t space) env Q (fun _ _ => True) k := by
  have hlt : spaces.length / NUM_PAGE_TABLE_ENTRY < exts.length := by
    change spaces.length < 512 * exts.length at hroom
    show spaces.length / 512 < exts.length
    omega
  obtain ⟨table, hext⟩ : ∃ table, exts[spaces.length / NUM_PAGE_TABLE_ENTRY]? = some table :=
    ⟨_, List.getElem?_eq_getElem hlt⟩
  unfold insertCapSpace
  rw [wp_bind, wp_get]
  dsimp only
  rw [hc.count, wp_ite, if_neg (by dsimp only; omega), wp_bind, wp_get, wp_bind]
  refine wp_walkEnabled_any _ ?_
  have hdescend := h.descend_ext hc.length_lt hext
  unfold capSpaceAddr at hdescend
  dsimp only
  rw [hdescend, wp_bind]
  refine wp_pageTableWalk_any ?_
  have hkilo := @capSpaceAddr_kilo spaces.length
  unfold capSpaceAddr at hkilo
  rw [hkilo, wp_bind, wp_get, wp_bind]
  refine wp_kassert_any ?_
  rw [wp_bind, wp_modify]
  -- The entry is filled. What is left has to do with the slots and the counts.
  have hrest : ∀ k₁, SpaceTables k₁ t inner exts (spaces ++ [space]) → SpaceCounts k₁ t exts spaces →
      (Vacant k inner exts.length → Vacant k₁ inner exts.length) → wp (do
        forM (pushFreeSlots t) (spaceSlots space spaces.length)
        modify fun k => k.setTask t { k.tasks t with
          capCount := { (k.tasks t).capCount with
            numCapSpace := ((k.tasks t).capCount.numCapSpace + 1) % MAX_NUM_CAP_SPACE } }
        return true) env Q (fun _ _ => True) k₁ := by
    intro k₁ h₁ hc₁ hv₁
    rw [wp_bind]
    have hkeeps : Keeps (SameSpaces t) (forM (pushFreeSlots t) (spaceSlots space spaces.length)) :=
      keeps_forM (fun s => SameSpaces.keeps_pushFreeSlots t s) _
    refine hkeeps.wp (fun _ k₂ hf => ?_) fun _ _ _ => trivial
    rw [wp_bind, wp_modify, wp_pure]
    refine hQ _ ((h₁.frame hf).setCount _) ⟨?_, hc.few, ?_⟩ fun hv => (hv₁ hv).congr hf.tables
    · rw [setCount_capCount, (hc₁.frame hf).count, List.length_append, List.length_singleton]
      have hsmall : (spaces.length + 1) % (512 * 512) = spaces.length + 1 := by
        have hfew := hc.few
        change exts.length < 512 at hfew
        change spaces.length < 512 * exts.length at hroom
        omega
      exact congrArg (fun n => (⟨n, exts.length⟩ : CapCount)) hsmall
    · rw [List.length_append, List.length_singleton]
      exact hroom
  have hfilled := h.insert hext hpage hfresh (k.pte table (spaces.length % NUM_PAGE_TABLE_ENTRY))
    .capSpace
  have hcounted : ∀ k₁ : Kernel, k₁.tasks = k.tasks → SpaceCounts k₁ t exts spaces := fun k₁ ht =>
    ⟨by rw [ht]; exact hc.count, hc.few, hc.room⟩
  have hvacant : Vacant k inner exts.length → Vacant (k.setPte table
      (spaces.length % NUM_PAGE_TABLE_ENTRY) ((k.pte table (spaces.length % NUM_PAGE_TABLE_ENTRY)).fill
        .capSpace space)) inner exts.length := by
    intro hv
    refine hv.setPte (Nat.le_refl _) fun heq => ?_
    exact absurd heq (h.root_ne.2 table (List.mem_of_getElem? hext)).2
  rw [wp_ite]
  split
  · rw [wp_bind, wp_modify, wp_bind, wp_modify]
    exact hrest _ (hfilled.frame (.of_eq rfl rfl rfl)) (hcounted _ rfl) fun hv => (hvacant hv).congr rfl
  · rw [wp_bind, wp_modify]
    exact hrest _ (hfilled.frame (.of_eq rfl rfl rfl)) (hcounted _ rfl) fun hv => (hvacant hv).congr rfl

/-- `extend_cap_space` adds an extension, unless there are as many as can be counted. -/
theorem wp_extendCapSpace_tables (h : SpaceTables k t inner exts spaces)
    (hc : SpaceCounts k t exts spaces) (hpage : IsPage page)
    (hfresh : page ∉ (k.tasks t).rootPageTable :: inner :: exts) {Q : Option Nat → Kernel → Prop}
    (hnone : ∀ k', SpaceTables k' t inner exts spaces → SpaceCounts k' t exts spaces →
      (Vacant k inner exts.length → Vacant k' inner exts.length) → Q none k')
    (hsome : ∀ va k', SpaceTables k' t inner (exts ++ [page]) spaces →
      SpaceCounts k' t (exts ++ [page]) spaces →
      (Vacant k inner exts.length → Vacant k' inner (exts ++ [page]).length) → Q (some va) k') :
    wp (extendCapSpace t page) env Q (fun _ _ => True) k := by
  have hfew := hc.few
  have hroom := hc.room
  change exts.length < 512 at hfew
  change spaces.length ≤ 512 * exts.length at hroom
  unfold extendCapSpace
  rw [wp_bind, wp_get]
  dsimp only
  rw [hc.count, wp_ite]
  split
  · exact hnone _ (h.frame (.of_eq rfl rfl rfl)) (hc.frame (.of_eq rfl rfl rfl)) fun hv => hv.congr rfl
  · rename_i hmore
    change ¬ exts.length = 512 - 1 at hmore
    rw [wp_bind, wp_get, wp_bind]
    refine wp_walkEnabled_any _ ?_
    have hlt : NUM_PAGE_TABLE_ENTRY * exts.length < NUM_PAGE_TABLE_ENTRY * NUM_PAGE_TABLE_ENTRY := by
      show 512 * exts.length < 512 * 512
      omega
    have hva : CONFIG_CAPABILITY_SPACE_BASE + PAGE_SIZE * NUM_PAGE_TABLE_ENTRY * exts.length
        = capSpaceAddr (NUM_PAGE_TABLE_ENTRY * exts.length) := extensionAddr_eq
    dsimp only
    rw [hva, h.descend_inner hlt, wp_bind]
    refine wp_pageTableWalk_any ?_
    have hindex : getPageTableIndex (capSpaceAddr (NUM_PAGE_TABLE_ENTRY * exts.length))
        MEGA_PAGE_TABLE_LEVEL = exts.length := by
      rw [capSpaceAddr_mega hlt]
      exact Nat.mul_div_cancel_left _ (by decide)
    rw [hindex, wp_bind, wp_get, wp_bind]
    refine wp_kassert_any ?_
    rw [wp_bind, wp_modify, wp_bind, wp_modify, wp_pure]
    have hext := h.extend hpage hfresh hroom (k.pte inner exts.length) .table
    refine hsome _ _ (hext.setCount _) ⟨?_, ?_, ?_⟩ fun hv => ?_
    · rw [setCount_capCount]
      show ({ (k.tasks t).capCount with numExtension := ((k.tasks t).capCount.numExtension + 1)
        % NUM_PAGE_TABLE_ENTRY } : CapCount) = _
      rw [hc.count, List.length_append, List.length_singleton]
      have hsmall : (exts.length + 1) % 512 = exts.length + 1 := by omega
      exact congrArg (fun n => (⟨spaces.length, n⟩ : CapCount)) hsmall
    · rw [List.length_append, List.length_singleton]
      show exts.length + 1 < 512
      omega
    · rw [List.length_append, List.length_singleton]
      show spaces.length ≤ 512 * (exts.length + 1)
      omega
    · rw [List.length_append, List.length_singleton]
      refine Vacant.congr ?_ rfl
      exact hv.setPte (Nat.le_succ _) fun _ => Nat.lt_succ_self _

/-- The window on the physical memory is entered into the root table alone. -/
theorem wp_mapMappedSpace_any {root : TablePtr} {Q : Unit → Kernel → Prop}
    (h : ∀ tables, Q () (k.setTables tables)) :
    wp (mapMappedSpace root) env Q (fun _ _ => True) k := by
  unfold mapMappedSpace
  refine wp_forM (fun _ _ k' => ∃ tables, k' = k.setTables tables) ?_ ?_ _ [] k ⟨k.pageTables, rfl⟩
  · rintro _ _ ⟨tables, rfl⟩
    exact h tables
  · rintro _ i rest _ ⟨tables, rfl⟩
    rw [wp_bind]
    refine wp_pageTableWalk_any ?_
    rw [wp_bind, wp_get, wp_bind]
    refine wp_kassert_any ?_
    exact ⟨_, rfl⟩

/-- `init_task` makes the first of all the tables. -/
theorem wp_initTask_tables {root table0 : TablePtr} (hinner : IsPage inner) (h0 : IsPage table0)
    (hspace : IsPage space) (hapart : [root, inner, table0].Nodup) {Q : Unit → Kernel → Prop}
    (hQ : ∀ k', SpaceTables k' t inner [table0] [space] → SpaceCounts k' t [table0] [space] →
      Vacant k' inner 1 → Q () k') :
    wp (initTask t space root table0 inner) env Q (fun _ _ => True) k := by
  obtain ⟨hroot, hrest⟩ := List.nodup_cons.mp hapart
  have hne : root ≠ inner := fun heq => hroot (heq ▸ List.mem_cons_self)
  unfold initTask nextTid modifyTask
  rw [wp_bind, wp_get, wp_bind]
  refine wp_kassert_any ?_
  rw [wp_bind, wp_bind, wp_modify, wp_bind, wp_get, wp_pure, wp_bind, wp_modify, wp_bind, wp_modify,
    wp_bind]
  generalize hk₁ : Kernel.mapTask _ t _ = k₁
  have htask : k₁.tasks t = { k.tasks t with
      tid := (k.curTid + 1) % 2 ^ 32
      capCount := ⟨0, 0⟩
      prevReadyTask := none
      nextReadyTask := none
      prevWaitingTask := none
      nextWaitingTask := none
      callerTask := none
      calleeTask := none
      freeSlots := none
      freeSlotsCount := 0
      rootPageTable := root
      killNotify := none
      state := .suspended
      ipcState := .none
      ipcMsgState := .empty
      eventType := .none
      exitStatus := 0 } := by
    rw [← hk₁]
    exact upd_same _ _ _
  refine wp_mapMappedSpace_any fun tables => ?_
  rw [wp_bind, wp_modify, wp_bind]
  refine wp_pageTableWalk_any ?_
  rw [show getPageTableIndex CONFIG_CAPABILITY_SPACE_BASE GIGA_PAGE_TABLE_LEVEL = 192 by decide,
    wp_bind, wp_get, wp_bind]
  refine wp_kassert_any ?_
  rw [wp_bind, wp_modify]
  generalize hk₂ : Kernel.setPte _ root 192 _ = k₂
  have htask₂ : k₂.tasks t = k₁.tasks t := by
    rw [← hk₂]
    rfl
  have hstart : SpaceTables k₂ t inner [] [] := by
    refine ⟨?_, ?_, ?_, fun j table hj => absurd hj (by simp), fun n table space hn => absurd hn (by simp),
      fun n space hn => absurd hn (by simp), List.nodup_nil⟩ <;> rw [htask₂, htask]
    · exact fun hdead => hdead.elim nofun nofun
    · exact List.nodup_cons.mpr ⟨by simpa using hne, List.nodup_singleton _⟩
    · rw [← hk₂]
      exact leads_fill hinner
  have hvacant : Vacant k₂ inner 0 := by
    rw [← hk₂]
    refine Vacant.setPte (n := 0) (fun j _ => ?_) (Nat.le_refl 0) fun heq => absurd heq.symm hne
    show (upd _ inner (fun _ => Pte.zero) inner j).isEnabled = false
    rw [upd_same]
    rfl
  have hcount : SpaceCounts k₂ t [] [] := ⟨by rw [htask₂, htask]; rfl, by decide, Nat.zero_le _⟩
  have hfresh : table0 ∉ [(k₂.tasks t).rootPageTable, inner] := by
    rw [htask₂, htask]
    have hinner0 := (List.nodup_cons.mp hrest).1
    intro hmem
    rcases List.mem_cons.mp hmem with rfl | hmem
    · exact hroot (List.mem_cons_of_mem _ List.mem_cons_self)
    · exact hinner0 (List.mem_singleton.mp hmem ▸ List.mem_cons_self)
  rw [wp_bind]
  refine wp_extendCapSpace_tables hstart hcount h0 hfresh (fun k' _ _ _ => ?_) fun va k₃ h₃ hc₃ hv₃ => ?_
  · rw [wp_ite, if_pos rfl]
    trivial
  · rw [wp_ite, if_neg (by simp), wp_bind]
    refine wp_insertCapSpace_tables h₃ hc₃ hspace List.not_mem_nil (show 0 < 512 * 1 by decide)
      fun k₄ h₄ hc₄ hv₄ => ?_
    rw [wp_ite, if_neg (by simp), wp_modify]
    have hf : SameSpaces t k₄ (k₄.mapTask t fun t => { t with context := .returnToUserMode }) :=
      SameSpaces.setTask k₄ t rfl rfl rfl
    exact hQ _ (h₄.frame hf) (hc₄.frame hf) ((hv₄ (hv₃ hvacant)).congr hf.tables)

end Caprese
