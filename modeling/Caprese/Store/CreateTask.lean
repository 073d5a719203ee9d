import Caprese.Store.Attach

/-!
# `Caprese.Store.CreateTask`: the creation of a task, and `create_object`

`init_task` builds the tables of a task out of three tables that it is given, and attaches
the first capability space. The three may be the same table: `InitTables` only says what is
true in this case as well. `create_task_object` then marks the capabilities of the tables as
used. Together with `Store/Create.lean` this gives what `create_object` does for each type,
under the condition `CreateOk`.
-/

set_option autoImplicit false

namespace Caprese

open Lib Prog Chains

variable {cfg : Config} {k k' k₁ : Kernel} {t : TaskPtr} {x y s : SlotPtr} {p : SpacePtr}
  {root table0 table1 table : TablePtr} {index : Nat} {tables tables' : TablePtr → Nat → Pte}

/-! ### Tables -/

/-- The kernel with other contents of its tables. -/
def Kernel.setTables (k : Kernel) (tables : TablePtr → Nat → Pte) : Kernel :=
  { k with pageTables := tables }

/-- An entry that `init_task` leaves where the user can do nothing with it. -/
def Pte.IsPlain (e : Pte) : Prop := e.isUser = false ∧ e.isTable = false

theorem plain_zero : Pte.zero.IsPlain := ⟨rfl, rfl⟩

/-- Entries with permissions for the kernel are neither tables nor user mappings. -/
theorem plain_fill {e : Pte} {flags : PteFlags} {page : PhysAddr} (hr : flags.readable = true)
    (hu : flags.user = false) : (e.fill flags page).IsPlain := by
  simp [Pte.IsPlain, Pte.isUser, Pte.isTable, Pte.fill, Pte.setFlags, Pte.setNextPage,
    Pte.enable, hr, hu]

theorem fill_table_isUser {e : Pte} {page : PhysAddr} : (e.fill .table page).isUser = false := by
  simp [Pte.isUser, Pte.fill, Pte.setFlags, Pte.setNextPage, Pte.enable, PteFlags.table]

/-- A page address is read back from an entry. -/
theorem getNextPage_fill {e : Pte} {flags : PteFlags} {page : PhysAddr} (ha : PAGE_SIZE ∣ page)
    (hlt : page < CONFIG_MAX_PHYSICAL_ADDRESS) : (e.fill flags page).getNextPage = page := by
  show page / 2 ^ PAGE_SIZE_BIT % 2 ^ 44 * 2 ^ PAGE_SIZE_BIT = page
  obtain ⟨n, rfl⟩ := ha
  have hlt : 4096 * n < 2 ^ 36 := hlt
  show 4096 * n / 4096 % 2 ^ 44 * 4096 = 4096 * n
  omega

theorem setEntry_apply (t : TablePtr) (i : Nat) (e : Pte) : setEntry tables table index e t i
    = if t = table ∧ i = index then e else tables t i := by
  unfold setEntry
  by_cases ht : t = table
  · by_cases hi : i = index
    · simp [ht, hi]
    · simp [ht, hi, upd_apply]
  · simp [ht, upd_apply]

theorem setEntry_other {t : TablePtr} (e : Pte) (h : t ≠ table) :
    setEntry tables table index e t = tables t := upd_ne _ _ h

/-- The window on the physical memory is all that the root table gets at first. -/
theorem wp_mapMappedSpace {Q : Unit → Kernel → Prop}
    (h : ∀ tables, (∀ t, t ≠ root → tables t = k.pageTables t) →
      (∀ i, tables root i = k.pageTables root i ∨ 128 ≤ i ∧ (tables root i).IsPlain) →
      Q () (k.setTables tables)) :
    wp (mapMappedSpace root) (.debug cfg) Q NoSwitch k := by
  unfold mapMappedSpace
  refine wp_forM (fun _ rest k' => (∀ i ∈ rest, i < 64) ∧ ∃ tables, k' = k.setTables tables ∧
    (∀ t, t ≠ root → tables t = k.pageTables t) ∧
    ∀ i, tables root i = k.pageTables root i ∨ 128 ≤ i ∧ (tables root i).IsPlain) ?_ ?_ _ [] k ?_
  · rintro _ _ ⟨-, tables, rfl, hother, hroot⟩
    exact h tables hother hroot
  · rintro _ i rest _ ⟨hlt, tables, rfl, hother, hroot⟩
    rw [wp_bind]
    refine wp_pageTableWalk ?_
    rw [wp_bind, wp_get, wp_bind, wp_kassert]
    split
    · refine ⟨fun j hj => hlt j (List.mem_cons_of_mem i hj), setEntry tables root _ _, rfl,
        fun t ht => ?_, fun j => ?_⟩
      · rw [setEntry_other _ ht, hother t ht]
      · rw [setEntry_apply]
        split
        · rename_i hj
          refine Or.inr ⟨?_, plain_fill rfl rfl⟩
          have hi : i < 64 := hlt i List.mem_cons_self
          have hindex : getPageTableIndex (CONFIG_MAPPED_SPACE_BASE
              + getPageSize MAX_PAGE_TABLE_LEVEL * i) MAX_PAGE_TABLE_LEVEL = 128 + i := by
            show (2 ^ 37 + 4096 * 2 ^ (9 * 2) * i) / 2 ^ (12 + 9 * 2) % 512 = 128 + i
            omega
          rw [hj.2, hindex]
          omega
        · exact hroot j
    · exact Stop.noConfusion
  · refine ⟨fun i hi => List.mem_range.mp hi, k.pageTables, rfl, fun _ _ => rfl, fun _ => ?_⟩
    exact Or.inl rfl

/-- A store into one of the tables keeps what `init_task` promises. -/
theorem InitTables.setEntry (h : InitTables tables root table0 table1 tables')
    (ht : table = root ∨ table = table0 ∨ table = table1) {e : Pte} (hu : e.isUser = false)
    (hi : e.isTable = true → e.getNextPage = table0)
    (hw : table = root → root ≠ table0 → root ≠ table1 → 128 ≤ index) :
    InitTables tables root table0 table1 (setEntry tables' table index e) where
  other t hr h0 h1 := by
    rw [setEntry_other _ (by rcases ht with rfl | rfl | rfl <;> assumption), h.other t hr h0 h1]
  user t i hin := by
    rw [setEntry_apply]
    split
    · exact hu
    · exact h.user t i hin
  inner t i hin := by
    rw [setEntry_apply]
    split
    · exact hi
    · exact h.inner t i hin
  window i := by
    rw [setEntry_apply]
    split
    · rename_i hrt
      intro _ h0 h1
      exact hrt.2 ▸ hw hrt.1.symm h0 h1
    · exact h.window i

/-- The three tables before the entries for the capability space. -/
theorem initTables_start (hother : ∀ t, t ≠ root → tables' t = tables t)
    (hroot : ∀ i, tables' root i = Pte.zero ∨ 128 ≤ i ∧ (tables' root i).IsPlain) :
    InitTables tables root table0 table1
      (upd (upd tables' table0 fun _ => Pte.zero) table1 fun _ => Pte.zero) := by
  have hplain : ∀ t i, t = root ∨ t = table0 ∨ t = table1 →
      (upd (upd tables' table0 fun _ => Pte.zero) table1 (fun _ => Pte.zero) t i).IsPlain := by
    intro t i ht
    simp only [upd_apply]
    split
    · exact plain_zero
    · split
      · exact plain_zero
      · have hr : t = root := by
          rcases ht with h | h | h
          · exact h
          · exact absurd h (by assumption)
          · exact absurd h (by assumption)
        rcases hroot i with hz | ⟨-, hp⟩
        · rw [hr, hz]
          exact plain_zero
        · rw [hr]
          exact hp
  refine ⟨fun t hr h0 h1 => ?_, fun t i ht => (hplain t i ht).1, fun t i ht htable => ?_,
    fun i henabled h0 h1 => ?_⟩
  · rw [upd_ne _ _ h1, upd_ne _ _ h0, hother t hr]
  · rw [(hplain t i ht).2] at htable
    exact absurd htable (by simp)
  · rw [upd_ne _ _ h1, upd_ne _ _ h0] at henabled
    rcases hroot i with hz | ⟨hi, -⟩
    · rw [hz] at henabled
      exact absurd henabled (by simp [Pte.zero, Pte.isEnabled])
    · exact hi

/-! ### `init_task` -/

/-- A task comes into use with an empty free list. -/
theorem StoreInv.startTask {held : Set SlotPtr} (h : StoreInv k held)
    (hu : (k.tasks t).state = .unused) {task : Task} (hs : task.freeSlots = none)
    (hc : task.freeSlotsCount = 0) : StoreInv (k.setTask t task) held := by
  have hspace : ∀ p, (k.capSpaces p).task ≠ some t := fun p hp => h.inUse p t hp hu
  refine ⟨h.links, h.outside, h.isolated, fun p t' hp => ?_, fun t' ht' => ?_⟩
  · have hne : t' ≠ t := fun heq => hspace p (hp.trans (congrArg some heq))
    rw [Kernel.setTask_tasks, upd_ne _ _ hne]
    exact h.inUse p t' hp
  · rw [Kernel.setTask_tasks] at ht'
    by_cases htt : t' = t
    · subst htt
      refine ⟨[], Links.isList_nil, ?_, ?_, fun s => ?_⟩
      · rw [Kernel.setTask_tasks, upd_same, hs, List.head?_nil]
      · rw [Kernel.setTask_tasks, upd_same, hc, List.length_nil]
      · refine iff_of_false (List.not_mem_nil) fun ⟨hown, _⟩ => ?_
        exact hspace s.space (Kernel.owner_slotTask hown)
    · rw [upd_ne _ _ htt] at ht'
      obtain ⟨l, hl⟩ := h.free t' ht'
      refine ⟨l, hl.list, ?_, ?_, hl.mem⟩
      · rw [Kernel.setTask_tasks, upd_ne _ _ htt, hl.head]
      · rw [Kernel.setTask_tasks, upd_ne _ _ htt, hl.count]

theorem StoreInv.setTables {held : Set SlotPtr} (h : StoreInv k held)
    (tables : TablePtr → Nat → Pte) : StoreInv (k.setTables tables) held :=
  (⟨rfl, rfl, fun _ => rfl, fun _ => rfl, fun _ => Iff.rfl⟩ :
    StoreFrame k (k.setTables tables)).storeInv h

/-- The indices of the first capability space. -/
theorem capSpaceAddr_zero_index : getPageTableIndex (capSpaceAddr 0) GIGA_PAGE_TABLE_LEVEL = 192 ∧
    getPageTableIndex (capSpaceAddr 0) MEGA_PAGE_TABLE_LEVEL = 0 := by decide

/-- What is known of the tables of a new task when its first space is attached. -/
theorem initTables_finish {tables'' : TablePtr → Nat → Pte} {e d : Pte} {p : SpacePtr}
    (h : InitTables tables root table0 table1 tables')
    (h0 : PAGE_SIZE ∣ table0 ∧ table0 < CONFIG_MAX_PHYSICAL_ADDRESS)
    (h1 : PAGE_SIZE ∣ table1 ∧ table1 < CONFIG_MAX_PHYSICAL_ADDRESS)
    (h'' : tables'' = setEntry tables' root 192 (e.fill .capSpace table1)) (k : Kernel)
    (hk : k.pageTables = tables'') :
    k.descend (capSpaceAddr 0) [GIGA_PAGE_TABLE_LEVEL] root = table1 ∧
    InitTables tables root table0 table1
      (setEntry tables'' table1 0 (d.fill .table table0)) ∧
    ∀ k' : Kernel, k'.pageTables = setEntry tables'' table1 0 (d.fill .table table0) →
      k'.capSpaceTable root 0 = table0 ∧ ∀ index (f : Pte), InitTables tables root table0 table1
        (setEntry k'.pageTables table0 index (f.fill .capSpace p)) := by
  have hroot : InitTables tables root table0 table1 tables'' := by
    rw [h'']
    refine h.setEntry (Or.inl rfl) (plain_fill rfl rfl).1 (fun ht => ?_) fun _ _ _ => by omega
    rw [(plain_fill rfl rfl).2] at ht
    exact absurd ht (by simp)
  have hnext : ((tables'' root 192)).getNextPage = table1 := by
    rw [h'', setEntry_apply, if_pos ⟨rfl, rfl⟩, getNextPage_fill h1.1 h1.2]
  have htable1 : InitTables tables root table0 table1
      (setEntry tables'' table1 0 (d.fill .table table0)) := by
    refine hroot.setEntry (Or.inr (Or.inr rfl)) fill_table_isUser
      (fun _ => getNextPage_fill h0.1 h0.2) fun ht _ hr => absurd ht.symm hr
  refine ⟨?_, htable1, fun k' hk' => ⟨?_, fun index f => ?_⟩⟩
  · unfold Kernel.descend Kernel.descend Kernel.pte
    rw [hk, capSpaceAddr_zero_index.1, hnext]
  · unfold Kernel.capSpaceTable Kernel.descend Kernel.descend Kernel.descend Kernel.pte
    have hstill : (k'.pageTables root 192).getNextPage = table1 := by
      rw [hk', setEntry_apply, if_neg (by omega), hnext]
    rw [capSpaceAddr_zero_index.1, hstill, capSpaceAddr_zero_index.2, hk', setEntry_apply,
      if_pos ⟨rfl, rfl⟩, getNextPage_fill h0.1 h0.2]
  · rw [hk']
    refine htable1.setEntry (Or.inr (Or.inl rfl)) (plain_fill rfl rfl).1 (fun ht => ?_)
      fun ht hr => absurd ht.symm hr
    rw [(plain_fill rfl rfl).2] at ht
    exact absurd ht (by simp)

theorem wp_initTask (h : StoreInv k ∅) (hp : (k.capSpaces p).task = none)
    (h0 : PAGE_SIZE ∣ table0 ∧ table0 < CONFIG_MAX_PHYSICAL_ADDRESS)
    (h1 : PAGE_SIZE ∣ table1 ∧ table1 < CONFIG_MAX_PHYSICAL_ADDRESS)
    {Q : Unit → Kernel → Prop}
    (hQ : ∀ k' tables, InitTables k.pageTables root table0 table1 tables → StoreInv k' ∅ →
      k'.store = { k.store with
        tables := tables
        root := upd k.store.root t (some root)
        space := upd k.store.space p (some t)
        trace := k.trace ++ [.attach t 0 p] } → Q () k') :
    wp (initTask t p root table0 table1) (.debug cfg) Q NoSwitch k := by
  unfold initTask nextTid modifyTask
  simp only [wp_bind, wp_get, wp_kassert, wp_modify, wp_pure]
  split
  · rename_i hunused
    -- `k₁`: the fields of the task are set. Only its root table is new to the store.
    generalize hk₁ : Kernel.mapTask _ t _ = k₁
    have hinv₁ : StoreInv k₁ ∅ := by
      have hf : StoreFrame k { k with curTid := (k.curTid + 1) % 2 ^ 32 } :=
        ⟨rfl, rfl, fun _ => rfl, fun _ => rfl, fun _ => Iff.rfl⟩
      rw [← hk₁]
      exact (hf.storeInv h).startTask hunused rfl rfl
    have hstate : (k₁.tasks t).state ≠ .unused := by
      rw [← hk₁]
      simp [Kernel.mapTask]
    have hroot : (k₁.tasks t).rootPageTable = root := by
      rw [← hk₁]
      simp [Kernel.mapTask]
    have hcount : (k₁.tasks t).capCount = ⟨0, 0⟩ := by
      rw [← hk₁]
      simp [Kernel.mapTask]
    have hstore₁ : k₁.store = { k.store with root := upd k.store.root t (some root) } := by
      rw [← hk₁]
      unfold Kernel.store
      congr 1
      funext t'
      by_cases ht : t' = t <;> simp [Kernel.mapTask, upd_apply, ht]
    have htables₁ : k₁.pageTables = k.pageTables := congrArg CapStore.tables hstore₁
    have hp₁ : (k₁.capSpaces p).task = none := by
      rw [← hk₁]
      exact hp
    refine wp_mapMappedSpace fun T hother hwindow => ?_
    -- The root table is zeroed and has the window of the kernel, the other two are empty.
    have hstart : InitTables k.pageTables root table0 table1
        (upd (upd T table0 fun _ => Pte.zero) table1 fun _ => Pte.zero) := by
      refine initTables_start (fun t ht => ?_) fun i => ?_
      · rw [hother t ht, ← htables₁]
        exact upd_ne _ _ ht
      · have hz : (k₁.zeroTable root).pageTables root i = Pte.zero := by
          simp [Kernel.zeroTable]
        rw [← hz]
        exact hwindow i
    refine wp_pageTableWalk ?_
    split
    -- `k₂`: the entry of the root for the capability spaces leads to `table1`.
    · generalize hk₂ : Kernel.setPte _ root _ _ = k₂
      have heq : k₂ = k₁.setTables (setEntry _ root 192 (Pte.fill _ .capSpace table1)) := hk₂.symm
      have htables₂ : k₂.pageTables = _ := congrArg Kernel.pageTables heq
      have hinv₂ : StoreInv k₂ ∅ := heq ▸ hinv₁.setTables _
      have hstore₂ : k₂.store = { k₁.store with tables := k₂.pageTables } := by
        rw [heq]
        rfl
      have htasks₂ : k₂.tasks = k₁.tasks := by
        rw [heq]
        rfl
      have hp₂ : (k₂.capSpaces p).task = none := by
        rw [heq]
        exact hp₁
      -- `table0` is entered into `table1`, which is where the walk for the first space ends.
      refine wp_extendCapSpace (n := 0) hinv₂ (by rw [htasks₂, hcount]) (fun e => ?_) ?_
      · rw [wp_ite, if_pos rfl]
        exact Stop.noConfusion
      · intro k₃ table index htable hindex _ _ hinv₃ hstore₃ hroot₃ hcount₃
        have hfinish := initTables_finish (d := k₂.pageTables table1 0) (p := p) hstart h0 h1
          rfl k₂ htables₂
        obtain ⟨hdescend, -, hrest⟩ := hfinish
        have hroot₂ : (k₂.tasks t).rootPageTable = root := by rw [htasks₂, hroot]
        have htable : table = table1 := by
          rw [htable, hroot₂]
          exact hdescend
        have hindex : index = 0 := by rw [hindex]; decide
        have htables₃ : k₃.pageTables
            = setEntry k₂.pageTables table1 0 ((k₂.pageTables table1 0).fill .table table0) := by
          have h := congrArg CapStore.tables hstore₃
          rw [htable, hindex] at h
          exact h
        obtain ⟨htable₃, hinit⟩ := hrest k₃ (htables₂ ▸ htables₃)
        rw [wp_ite, if_neg (by simp), wp_bind]
        have hp₃ : (k₃.capSpaces p).task = none := by
          have hspace : k₃.store.space = k₂.store.space := by rw [hstore₃]
          exact (congrFun hspace p).trans hp₂
        have hstate₃ : (k₃.tasks t).state ≠ .unused := by
          have hr : k₃.store.root t = k₁.store.root t := by rw [hstore₃, hstore₂]
          intro hunused₃
          simp only [Kernel.store, if_pos hunused₃, if_neg hstate] at hr
          exact absurd hr (by simp)
        have hroot₃ : (k₃.tasks t).rootPageTable = root := (hroot₃ t).trans hroot₂
        -- The space is entered into `table0`. This is the only attachment of the call.
        refine wp_insertCapSpace (n := 0) hinv₃ hstate₃ hp₃ (by rw [hcount₃, htasks₂, hcount])
          (fun e => ?_) fun k₄ _ _ hinv₄ hstore₄ => ?_
        · rw [wp_ite, if_pos rfl]
          exact Stop.noConfusion
        · rw [wp_ite, if_neg (by simp), wp_modify]
          have hf : CapFrame k₄ (k₄.mapTask t fun t => { t with context := .returnToUserMode }) :=
            .mapTask k₄ t rfl rfl rfl rfl Iff.rfl
          refine hQ _ _ (hinit (getPageTableIndex (capSpaceAddr 0) KILO_PAGE_TABLE_LEVEL)
            (k₃.pageTables table0 (getPageTableIndex (capSpaceAddr 0) KILO_PAGE_TABLE_LEVEL)))
            (hf.storeInv hinv₄) ?_
          rw [hf.store, hstore₄, hroot₃, htable₃]
          unfold CapStore.attach
          rw [htables₃, hstore₃, hstore₂, hstore₁]
          simp only [htable, hindex]
          rfl
    · exact Stop.noConfusion
  · exact Stop.noConfusion

theorem avoids_initTask (task : TaskPtr) (p : SpacePtr) (root table0 table1 : TablePtr) :
    Avoids .switched (initTask task p root table0 table1) := by
  unfold initTask nextTid mapMappedSpace
  refine avoids_bind avoids_get fun _ => avoids_bind (avoids_kassert _) fun _ => ?_
  refine avoids_bind (avoids_bind (avoids_modify _) fun _ =>
    avoids_bind avoids_get fun _ => avoids_pure _) fun tid => ?_
  refine avoids_bind (avoids_modify _) fun _ => avoids_bind (avoids_modify _) fun _ => ?_
  refine avoids_bind (avoids_forM (fun i => ?_) _) fun _ => avoids_bind (avoids_modify _) fun _ => ?_
  · refine avoids_bind (avoids_pageTableWalk _ _) fun _ => avoids_bind avoids_get fun _ => ?_
    exact avoids_bind (avoids_kassert _) fun _ => avoids_modify _
  · refine avoids_bind (avoids_pageTableWalk _ _) fun _ => avoids_bind avoids_get fun _ => ?_
    refine avoids_bind (avoids_kassert _) fun _ => avoids_bind (avoids_modify _) fun _ => ?_
    refine avoids_bind (avoids_extendCapSpace _ _) fun _ =>
      avoids_ite (avoids_stop (by decide)) ?_
    refine avoids_bind (avoids_insertCapSpace _ _) fun _ =>
      avoids_ite (avoids_stop (by decide)) (avoids_modify _)

/-! ### `create_task_object` -/

theorem wp_unmappedTable {slot : Option SlotPtr} {Q : SlotPtr → Kernel → Prop}
    (h : ∀ s c, slot = some s → k.cap s = .pageTable c → c.mapped = false → Q s k) :
    wp (unmappedTable slot) (.debug cfg) Q NoSwitch k := by
  unfold unmappedTable
  rw [wp_bind, wp_kassert]
  split
  · rw [wp_bind, wp_deref]
    cases slot with
    | none => exact Stop.noConfusion
    | some s =>
      show wp (pageTableCap s >>= _) _ _ _ _
      rw [wp_bind]
      refine wp_readPageTable noSwitch_fatal fun c hc => ?_
      rw [wp_bind, wp_kassert]
      split
      · exact h s c rfl hc ‹_›
      · exact Stop.noConfusion
  · exact Stop.noConfusion

theorem wp_adopt {held : Set SlotPtr} (h : StoreInv k held) {level va : Nat}
    {Q : Unit → Kernel → Prop}
    (hQ : ∀ k', StoreInv k' held →
      k'.store = { k.store with cap := adoptCap k.cap s level va } → Q () k') :
    wp (modifyPageTableCap s (·.adopt level va)) (.debug cfg) Q NoSwitch k := by
  unfold modifyPageTableCap storeCap
  rw [wp_bind, wp_get]
  cases hs : k.cap s with
  | pageTable c =>
    have hne : k.cap s ≠ .null := by simp [hs]
    have hadopt : adoptCap k.cap s level va = upd k.cap s (.pageTable (c.adopt level va)) := by
      unfold adoptCap
      rw [hs]
    refine hQ _ (h.update hne (by simp)) ?_
    rw [setCap_store hne (by simp), hadopt]
    rfl
  | _ =>
    refine hQ k h ?_
    unfold adoptCap
    rw [hs]
    rfl

theorem avoids_adopt (s : SlotPtr) (f : PageTableCap → PageTableCap) :
    Avoids .switched (modifyPageTableCap s f) := by
  unfold modifyPageTableCap
  refine avoids_bind avoids_get fun k => ?_
  cases k.cap s with
  | pageTable c => exact avoids_modify _
  | _ => exact avoids_pure _

/-- The end of `create_task_object`, where the task is set up, does not fail. -/
theorem wp_startTask {rootSlot slot0 slot1 : SlotPtr} {task : TaskPtr}
    {f f0 f1 : PageTableCap → PageTableCap} {Q : Option SlotPtr → Kernel → Prop}
    (hQ : ∀ k', Q (some y) k') :
    wp (do
        modify fun k : Kernel => k.setTask task Task.zero
        initTask task p root table0 table1
        storeCap y (makeTaskCap task)
        modifyPageTableCap rootSlot f
        modifyPageTableCap slot0 f0
        modifyPageTableCap slot1 f1
        return some y) (.debug cfg) Q NoSwitch k := by
  rw [wp_bind, wp_modify, wp_bind]
  refine (avoids_initTask task p root table0 table1).any fun _ k₁ => ?_
  unfold storeCap
  rw [wp_bind, wp_modify, wp_bind]
  refine (avoids_adopt rootSlot f).any fun _ k₂ => ?_
  rw [wp_bind]
  refine (avoids_adopt slot0 f0).any fun _ k₃ => ?_
  rw [wp_bind]
  exact (avoids_adopt slot1 f1).any fun _ k₄ => hQ k₄

variable {m : MemoryCap}

theorem wp_createTaskObject {capSpaceSlot rootSlot : SlotPtr} {slot0 slot1 : Option SlotPtr}
    (h : Popped k t y k₁) (hx : k.cap x = .memory m) (hm : MemInv k.store)
    (hsafe : m.SafeRequest (kernelRequest m.device PAGE_SIZE))
    (hunused : ∀ base, Carve m PAGE_SIZE PAGE_SIZE base → k.store.root base = none)
    {Q : Option SlotPtr → Kernel → Prop} (hnone : ∀ k', Popped k t y k' → Q none k')
    (hsome : ∀ k', ((∀ p, k.cap capSpaceSlot = .capSpace p → k.store.space p.space = none) →
      ∃ S, m.device = false ∧ Created k.store x y PAGE_SIZE PAGE_SIZE S ∧ StoreInv k' ∅ ∧
        Trans S .adopt k'.store) → Q (some y) k') :
    wp (createTaskObject y x capSpaceSlot rootSlot slot0 slot1) (.debug cfg) Q NoSwitch k₁ := by
  have hx₁ : k₁.cap x = .memory m := by rw [h.cap, hx]
  have hxy : x ≠ y := h.ne (by simp [hx])
  obtain ⟨a, b, hl⟩ := h.exists_chain (x := x) (by simp [hx])
  unfold createTaskObject
  rw [wp_bind]
  refine wp_memoryCap hx₁ ?_
  rw [wp_bind]
  refine wp_checkUnused ?_
  rw [wp_bind]
  refine wp_readCapSpace noSwitch_fatal fun p hp => ?_
  rw [wp_bind]
  refine wp_unmappedTable fun r cr hr hcr hmr => ?_
  obtain rfl := Option.some.inj hr
  rw [wp_bind]
  refine wp_unmappedTable fun s0 c0 h0 hc0 hm0 => ?_
  rw [wp_bind]
  refine wp_unmappedTable fun s1 c1 h1 hc1 hm1 => ?_
  rw [wp_bind]
  refine wp_readPageTable noSwitch_fatal fun cr' hcr' => ?_
  obtain rfl : cr = cr' := Capability.pageTable.inj (hcr.symm.trans hcr')
  rw [wp_bind]
  refine wp_readPageTable noSwitch_fatal fun c0' hc0' => ?_
  obtain rfl : c0 = c0' := Capability.pageTable.inj (hc0.symm.trans hc0')
  rw [wp_bind]
  refine wp_readPageTable noSwitch_fatal fun c1' hc1' => ?_
  obtain rfl : c1 = c1' := Capability.pageTable.inj (hc1.symm.trans hc1')
  rw [wp_bind]
  refine wp_createKernelObject h hx hl (hm.memory hx) hsafe.kernel hnone fun base k₂ hdevice hcarve hk₂ => ?_
  rw [h.cap] at hp hcr hc0 hc1
  by_cases hdetached : ∀ p, k.cap capSpaceSlot = .capSpace p → k.store.space p.space = none
  swap
  -- Nothing is known of a task with a space that was in use, but the call does not fail.
  · exact wp_startTask fun k' => hsome k' fun h => absurd h hdetached
  have hroot : k.store.root base = none := hunused base hcarve
  have hroot₂ : (k₂.tasks base).state = .unused := by
    have hr : k₂.store.root base = none := by
      rw [hk₂.store]
      exact hroot
    by_contra hused
    simp only [Kernel.store, if_neg hused] at hr
    exact absurd hr (by simp)
  have hspace : k.store.space p.space = none := hdetached p hp
  -- The capabilities that the call has read are still there.
  have hother : ∀ {s : SlotPtr}, k.cap s ≠ .null → k.cap s ≠ .memory m →
      (k.store.derive x y a b (makeTaskCap base) (.memory (m.carve base PAGE_SIZE))).cap s
        = k.cap s := by
    intro s hnull hmem
    have hsx : s ≠ x := fun heq => hmem (heq ▸ hx)
    show upd (upd k.cap y _) x _ s = _
    rw [upd_ne _ _ hsx, upd_ne _ _ (h.ne hnull)]
  rw [wp_bind, wp_modify, wp_bind]
  generalize hk₃ : k₂.setTask base Task.zero = k₃
  have hinv₃ : StoreInv k₃ ∅ := hk₃ ▸ hk₂.inv.startTask hroot₂ rfl rfl
  have hstore₃ : k₃.store = k₂.store := by
    rw [← hk₃]
    unfold Kernel.store
    congr 1
    funext t'
    by_cases ht : t' = base
    · simp [ht, Task.zero, hroot₂]
    · simp [ht, upd_apply]
  have hp₃ : (k₃.capSpaces p.space).task = none := by
    have hs : k₃.store.space = k.store.space := by rw [hstore₃, hk₂.store]; rfl
    exact (congrFun hs p.space).trans hspace
  have htables₃ : k₃.pageTables = k.pageTables := by
    have hs : k₃.store.tables = k.store.tables := by rw [hstore₃, hk₂.store]; rfl
    exact hs
  refine wp_initTask hinv₃ hp₃ (hm.aligned s0 c0 hc0) (hm.aligned s1 c1 hc1)
    fun k₄ tables hinit hinv₄ hstore₄ => ?_
  have hcap₄ : k₄.cap = k₂.cap := by
    have hs : k₄.store.cap = k₂.store.cap := by rw [hstore₄, hstore₃]
    exact hs
  have hy₄ : k₄.cap y ≠ .null := by
    rw [hcap₄, hk₂.cap_dst hxy]
    simp [newMemory]
  unfold storeCap
  rw [wp_bind, wp_modify, wp_bind]
  have hinv₅ : StoreInv (k₄.setCap y (makeTaskCap base)) ∅ :=
    hinv₄.update hy₄ (by simp [makeTaskCap])
  refine wp_adopt hinv₅ fun k₆ hinv₆ hstore₆ => ?_
  rw [wp_bind]
  refine wp_adopt hinv₆ fun k₇ hinv₇ hstore₇ => ?_
  rw [wp_bind]
  refine wp_adopt hinv₇ fun k₈ hinv₈ hstore₈ => ?_
  refine hsome k₈ fun _ =>
    ⟨k.store.derive x y a b (makeTaskCap base) (.memory (m.carve base PAGE_SIZE)), hdevice,
      ⟨a, b, m, base, makeTaskCap base, hx, h.null, hl, hcarve, .task hdevice, rfl⟩, hinv₈, ?_⟩
  have hderive : (k₂.store).setCap y (makeTaskCap base)
      = k.store.derive x y a b (makeTaskCap base) (.memory (m.carve base PAGE_SIZE)) := by
    rw [hk₂.store, CapStore.derive_setCap hxy]
  rw [← hderive]
  rw [← hderive] at hother
  have hstore₅ : (k₄.setCap y (makeTaskCap base)).store
      = { (k₂.store).setCap y (makeTaskCap base) with
        tables := tables
        root := upd k₂.store.root base (some cr.table)
        space := upd k₂.store.space p.space (some base)
        trace := k₂.store.trace ++ [.attach base 0 p.space] } := by
    rw [setCap_store hy₄ (by simp [makeTaskCap]), hstore₄, ← hstore₃]
    rfl
  have hcap₈ : k₈.store = { (k₄.setCap y (makeTaskCap base)).store with
      cap := adoptCaps (k₄.setCap y (makeTaskCap base)).cap rootSlot s0 s1 } := by
    have hcap₆ : k₆.cap = _ := congrArg CapStore.cap hstore₆
    have hcap₇ : k₇.cap = _ := congrArg CapStore.cap hstore₇
    rw [hstore₈, hcap₇, hcap₆, hstore₇, hstore₆]
    rfl
  have hcap₅ : (k₄.setCap y (makeTaskCap base)).cap
      = ((k₂.store).setCap y (makeTaskCap base)).cap := congrArg CapStore.cap hstore₅
  rw [hcap₈, hcap₅, hstore₅]
  refine .adopt (y := y) (upd_same _ y (makeTaskCap base)) ((hother ?_ ?_).trans hp)
    ((hother ?_ ?_).trans hcr) ((hother ?_ ?_).trans hc0) ((hother ?_ ?_).trans hc1)
    ⟨hmr, hm0, hm1⟩ ?_ ?_ ?_
  · simp [hp]
  · simp [hp]
  · simp [hcr]
  · simp [hcr]
  · simp [hc0]
  · simp [hc0]
  · simp [hc1]
  · simp [hc1]
  · show k₂.store.root base = none
    rw [hk₂.store]
    exact hroot
  · show k₂.store.space p.space = none
    rw [hk₂.store]
    exact hspace
  · show InitTables k₂.store.tables _ _ _ _
    have htables₂ : k₂.store.tables = k₃.pageTables := by
      rw [← hstore₃]
      rfl
    rw [htables₂]
    exact hinit

/-! ### `create_object` -/

/-- What a call of `create_object` needs: no address wraps around. -/
def CreateOk (k : Kernel) (capSlot : SlotPtr) (type : CapType) (args : List Nat) : Prop :=
  ∀ m, k.cap capSlot = .memory m → m.SafeRequest (objectRequest m.device type args)

instance (k : Kernel) (capSlot : SlotPtr) (type : CapType) (args : List Nat) :
    Decidable (CreateOk k capSlot type args) :=
  match hc : k.cap capSlot with
  | .memory m => decidable_of_iff (m.SafeRequest (objectRequest m.device type args))
      ⟨fun h _ heq => by rw [hc] at heq; cases heq; exact h, fun h => h m hc⟩
  | .null | .task _ | .endpoint _ | .pageTable _ | .virtPage _ | .capSpace _ | .id _ | .zombie =>
    isTrue fun m hm => by rw [hc] at hm; cases hm

/-- The space that a call names for a new task is not attached. -/
def TaskDetached (k : Kernel) (task : TaskPtr) (args : List Nat) : Prop :=
  ∀ s p, k.findCap task (args.getD 0 0) = some s → k.cap s = .capSpace p →
    (k.capSpaces p.space).task = none

/-- The space behind a capability, if there is one, is not attached. -/
def SpaceFree (k : Kernel) (c : Capability) : Prop :=
  ∀ p, c = .capSpace p → (k.capSpaces p.space).task = none

instance (k : Kernel) (c : Capability) : Decidable (SpaceFree k c) :=
  match c with
  | .capSpace p => decidable_of_iff ((k.capSpaces p.space).task = none)
      ⟨fun h _ heq => by cases heq; exact h, fun h => h p rfl⟩
  | .null | .memory _ | .task _ | .endpoint _ | .pageTable _ | .virtPage _ | .id _ | .zombie =>
    isTrue fun _ hp => by cases hp

instance (k : Kernel) (task : TaskPtr) (args : List Nat) : Decidable (TaskDetached k task args) :=
  match hs : k.findCap task (args.getD 0 0) with
  | none => isTrue fun _ _ heq => by rw [hs] at heq; cases heq
  | some s => decidable_of_iff (SpaceFree k (k.cap s))
      ⟨fun h _ p heq hp => by rw [hs] at heq; cases heq; exact h p hp, fun h p hp => h s p hs hp⟩

/-- What a call of `create_object` did: an object of the requested size and alignment was
carved out of the memory in `x`. A new task also took over its tables and its space. -/
def CreatesObject (k : Kernel) (x : SlotPtr) (type : CapType) (args : List Nat)
    (y : SlotPtr) (k' : Kernel) : Prop :=
  StoreInv k' ∅ ∧ ∃ m size alignment S, k.cap x = .memory m ∧
    objectRequest m.device type args = some (size, alignment) ∧
    Created k.store x y size alignment S ∧
    (type ≠ .task ∧ k'.store = S ∨ type = .task ∧ Trans S .adopt k'.store)

/-- The answer of `create_object`. The new task must not get a space that is in use. -/
def CreateAnswers (k : Kernel) (task : TaskPtr) (x : SlotPtr) (type : CapType)
    (args : List Nat) : Option SlotPtr → Kernel → Prop
  | none, k' => Does k [] k'
  | some y, k' => (type = .task → TaskDetached k task args) → CreatesObject k x type args y k'

theorem wp_lookupTable {task : TaskPtr} {capDesc : Nat} {Q : Option SlotPtr × Bool → Kernel → Prop}
    (hQ : ∀ r k', (∃ e, k' = { k with errno := e }) ∨ k' = k → Q r k') :
    wp (lookupTable task capDesc) (.debug cfg) Q NoSwitch k := by
  unfold lookupTable
  rw [wp_bind]
  refine wp_lookupCap (fun s hs => ?_) fun e => hQ _ _ (Or.inl ⟨_, rfl⟩)
  simp only [wp_bind, wp_get]
  split
  · rw [wp_ite]
    split
    · exact hQ _ _ (Or.inl ⟨_, rfl⟩)
    · exact hQ _ _ (Or.inr rfl)
  · exact hQ _ _ (Or.inl ⟨_, rfl⟩)

theorem wp_createTask {task : TaskPtr} {args : List Nat} (h : Popped k t y k₁)
    (hx : k.cap x = .memory m) (hm : MemInv k.store) (hok : CreateOk k x .task args)
    (hunused : ∀ base, Carve m PAGE_SIZE PAGE_SIZE base → k.store.root base = none)
    {Q : Option SlotPtr → Kernel → Prop} (hnone : ∀ k', Popped k t y k' → Q none k')
    (hsome : ∀ k', (TaskDetached k task args → ∃ S, m.device = false ∧
      Created k.store x y PAGE_SIZE PAGE_SIZE S ∧ StoreInv k' ∅ ∧ Trans S .adopt k'.store) →
      Q (some y) k') :
    wp (createTask task y x args) (.debug cfg) Q NoSwitch k₁ := by
  -- A table that is not found leaves an error code, and nothing else.
  have hpopped : ∀ {k₁ k₂ : Kernel}, Popped k t y k₁ →
      (∃ e, k₂ = { k₁ with errno := e }) ∨ k₂ = k₁ → Popped k t y k₂ := by
    rintro k₁ k₂ h (⟨e, rfl⟩ | rfl)
    · exact h.errno e
    · exact h
  have hsafe : m.SafeRequest (kernelRequest m.device PAGE_SIZE) := hok m hx
  have hfind : k₁.findCap task (args.getD 0 0) = k.findCap task (args.getD 0 0) :=
    findCap_congr (congrArg CapStore.tables h.store) h.cap (h.tasks task).1 (h.tasks task).2.1
      (h.tasks task).2.2 _
  unfold createTask
  rw [wp_bind]
  refine wp_lookupCap (fun cs hcs => ?_) fun e => hnone _ (h.errno _)
  have hsome' : ∀ k', ((∀ p, k.cap cs = .capSpace p → k.store.space p.space = none) →
      ∃ S, m.device = false ∧ Created k.store x y PAGE_SIZE PAGE_SIZE S ∧ StoreInv k' ∅ ∧
        Trans S .adopt k'.store) → Q (some y) k' := fun k' h =>
    hsome k' fun hdetached => h fun p hp => hdetached cs p (hfind ▸ hcs) hp
  simp only [wp_bind, wp_get, wp_ite]
  split
  · exact hnone _ (h.errno _)
  · refine wp_lookupCap (fun r hr => ?_) fun e => hnone _ (h.errno _)
    simp only [wp_bind, wp_get]
    split
    · rw [wp_ite]
      split
      · exact hnone _ (h.errno _)
      · rw [wp_bind]
        refine wp_lookupTable fun r0 k₂ hk₂ => ?_
        have h₂ := hpopped h hk₂
        rw [wp_ite]
        split
        · rw [wp_bind]
          refine wp_lookupTable fun r1 k₃ hk₃ => ?_
          exact wp_createTaskObject (hpopped h₂ hk₃) hx hm hsafe hunused hnone hsome'
        · exact wp_createTaskObject h₂ hx hm hsafe hunused hnone hsome'
    · exact hnone _ (h.errno _)

/-- What the `switch` of `create_object` ends in: the slot `y` is filled, or to be given back. -/
def CreatesIn (k : Kernel) (t : TaskPtr) (x y : SlotPtr) (type : CapType) (args : List Nat) :
    Option SlotPtr → Kernel → Prop
  | none, k' => Popped k t y k'
  | some z, k' => z = y ∧ CreateAnswers k t x type args (some y) k'

theorem Creates.object (type : CapType) {args : List Nat} {r : Option SlotPtr}
    (h : Creates k t x y (objectRequest m.device type args) r k') (hx : k.cap x = .memory m)
    (htype : type ≠ .task) : CreatesIn k t x y type args r k' := by
  cases r with
  | none => exact h
  | some z =>
    obtain ⟨rfl, hinv, size, alignment, hrequest, hcreated⟩ := h
    exact ⟨rfl, fun _ => ⟨hinv, m, size, alignment, _, hx, hrequest, hcreated, Or.inl ⟨htype, rfl⟩⟩⟩

/-- The cases of the `switch`. -/
theorem wp_createObjectOf {type : CapType} {args : List Nat}
    (h : Popped k t y k₁) (hx : k.cap x = .memory m) (hm : MemInv k.store)
    (hok : CreateOk k x type args) :
    wp (createObjectOf t y x type args) (.debug cfg) (CreatesIn k t x y type args)
      NoSwitch k₁ := by
  have hb := hm.memory hx
  have hsafe := hok m hx
  have hcovers : ∀ {base a : Nat}, Carve m PAGE_SIZE PAGE_SIZE base →
      Between base (base + PAGE_SIZE) a → k.store.Free a := by
    intro base a hcarve ha
    have hcovers := hcarve.covers_object ha.1 ha.2
    rw [← hx] at hcovers
    exact ⟨x, m, hx, hcovers⟩
  have hbase : ∀ base : Nat, Between base (base + PAGE_SIZE) base := fun base =>
    ⟨Nat.le_refl _, Nat.lt_add_of_pos_right (by decide)⟩
  -- A page that is carved from free memory is no task that runs.
  have hunused : ∀ base, Carve m PAGE_SIZE PAGE_SIZE base → k.store.root base = none := by
    intro base hcarve
    by_contra hused
    obtain ⟨r, hr⟩ := Option.ne_none_iff_exists'.mp hused
    exact hm.tasks base r base hr (hbase base) (hcovers hcarve (hbase base))
  -- It is no capability space of a task either.
  have hspace : ∀ base, Carve m PAGE_SIZE PAGE_SIZE base → k.store.space base = none := by
    intro base hcarve
    by_contra hused
    obtain ⟨r, hr⟩ := Option.ne_none_iff_exists'.mp hused
    exact hm.spaces base r base hr (hbase base) (hcovers hcarve (hbase base))
  cases type with
  | mem =>
    exact wp_mono (wp_createMemory h hx hb hsafe)
      (fun r _ hr => Creates.object .mem hr hx (by decide)) fun _ _ h => h
  | task =>
    refine wp_createTask h hx hm hok hunused (fun _ hk' => hk') fun k' hk' => ⟨rfl, fun hfree => ?_⟩
    obtain ⟨S, hdevice, hcreated, hinv, hadopt⟩ := hk' (hfree rfl)
    have hrequest : objectRequest m.device .task args = some (PAGE_SIZE, PAGE_SIZE) := by
      simp [objectRequest, kernelRequest, hdevice]
    exact ⟨hinv, m, PAGE_SIZE, PAGE_SIZE, S, hx, hrequest, hcreated, Or.inr ⟨rfl, hadopt⟩⟩
  | endpoint =>
    exact wp_mono (wp_createEndpointObject h hx hb hsafe)
      (fun r _ hr => Creates.object .endpoint hr hx (by decide)) fun _ _ h => h
  | pageTable =>
    exact wp_mono (wp_createPageTableObject h hx hb hsafe)
      (fun r _ hr => Creates.object .pageTable hr hx (by decide)) fun _ _ h => h
  | virtPage =>
    exact wp_mono (wp_createVirtPageObject h hx hb hsafe)
      (fun r _ hr => Creates.object .virtPage hr hx (by decide)) fun _ _ h => h
  | capSpace =>
    exact wp_mono (wp_createCapSpaceObject h hx hb hsafe hspace)
      (fun r _ hr => Creates.object .capSpace hr hx (by decide)) fun _ _ h => h
  | null => exact h
  | id => exact h
  | zombie => exact h
  | unknown => exact h

theorem wp_createObject {task : TaskPtr} {type : CapType} {args : List Nat} (h : StoreInv k ∅)
    (hm : MemInv k.store) (hok : CreateOk k x type args) :
    wp (createObject task x type args) (.debug cfg) (CreateAnswers k task x type args) NoSwitch
      k := by
  unfold createObject
  simp only [wp_bind, wp_get, wp_kassert, wp_ite]
  split
  · split
    · exact does_errno h _
    · rename_i hmem
      split
      · exact does_errno h _
      · rename_i hdead
        obtain ⟨m, hx⟩ : ∃ m, k.cap x = .memory m := by
          cases hx : k.cap x <;> simp_all [getCapType]
        refine wp_pop h (fun hu => hdead (Or.inl hu)) (fun e => does_errno h _) fun y k₁ hy => ?_
        rw [wp_bind]
        refine wp_mono (wp_createObjectOf hy hx hm hok) (fun r k₂ hr => ?_) fun _ _ h => h
        cases r with
        | none =>
          rw [wp_bind]
          refine Popped.pushBack hr fun k₃ hinv hstore => ?_
          exact .nothing hinv hstore
        | some z =>
          obtain ⟨rfl, hr⟩ := hr
          exact hr
  · exact Stop.noConfusion

end Caprese
