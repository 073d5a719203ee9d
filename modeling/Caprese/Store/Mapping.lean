import Caprese.Kernel.Mapping
import Caprese.Store.CreateTask

/-!
# `Caprese.Store.Mapping`: maps of tables, pages and capability spaces are moves

The operations of `cap.cpp` that write an entry of a page table and the record of it in a
capability. Each of them checks its arguments, and fails without a trace or makes one move.
-/

set_option autoImplicit false

namespace Caprese

open Lib Prog Chains

variable {cfg : Config} {k k' : Kernel} {x y s : SlotPtr} {c : Capability} {index : Nat}

/-- A call that answers with a flag made the move `act` for true, and nothing for false. -/
def Maps (k : Kernel) (act : Act) : Bool → Kernel → Prop
  | false, k' => Does k [] k'
  | true, k' => Does k [act] k'

theorem wp_failWith {act : Act} (h : StoreInv k ∅) (e : SysError) :
    wp (failWith e) (.debug cfg) (Maps k act) NoSwitch k := does_errno h e

theorem wp_checkArgs {env : Env} {E : Stop → Kernel → Prop} {slot : Option SlotPtr} {type : CapType}
    {Q : Option SlotPtr → Kernel → Prop} (hnone : ∀ e, Q none { k with errno := e })
    (hsome : ∀ s, slot = some s → index < NUM_PAGE_TABLE_ENTRY → Q (some s) k) :
    wp (checkArgs index slot type) env Q E k := by
  unfold checkArgs
  rw [wp_ite]
  split
  · exact hnone _
  · rename_i hindex
    cases slot with
    | none => exact hnone _
    | some s =>
      simp only [wp_bind, wp_get, wp_ite]
      split
      · exact hnone _
      · exact hsome s rfl (Nat.not_le.mp hindex)

theorem Pte.isEnabled_of_not {e : Pte} (h : ¬ e.isDisabled = true) : e.isEnabled = true := by
  rw [Pte.isDisabled_iff] at h
  exact Bool.of_not_eq_false h

/-! ### The rules of the five operations -/

section Rules

variable {env : Env} {E : Stop → Kernel → Prop} {Q : Bool → Kernel → Prop}
  {child page old : Option SlotPtr} {r w e : Bool} (hE : Fatal E)
  (hfail : ∀ e, Q false { k with errno := e })

include hE hfail

theorem wp_mapPageTableCap_of
    (hdone : ∀ y p c, child = some y → k.cap x = .pageTable p → k.cap y = .pageTable c →
      index < NUM_PAGE_TABLE_ENTRY → entryAddr p p.level index < CONFIG_KERNEL_SPACE_BASE →
      p.level ≠ 0 → (k.pte p.table index).isEnabled = false → c.mapped = false →
      Q true ((k.setPte p.table index ((k.pte p.table index).fill .table c.table)).setCap y
        (.pageTable { c with
          mapped := true
          level := p.level - 1
          virtAddrBase := entryAddr p p.level index % CONFIG_MAX_VIRTUAL_ADDRESS
          parentTable := some p.table }))) :
    wp (mapPageTableCap x index child) env Q E k := by
  unfold mapPageTableCap
  rw [wp_bind]
  refine wp_readPageTable hE fun p hp => ?_
  rw [wp_bind]
  refine wp_checkArgs (fun e => hfail e) fun y hy hindex => ?_
  show wp (pageTableCap y >>= _) _ _ _ _
  rw [wp_bind]
  refine wp_readPageTable hE fun c hc => ?_
  rw [wp_ite]
  split
  · exact hfail _
  · rename_i hva
    rw [wp_ite]
    split
    · exact hfail _
    · rename_i hlevel
      rw [wp_bind, wp_get, wp_ite]
      split
      · exact hfail _
      · rename_i hfree
        rw [wp_ite]
        split
        · exact hfail _
        · rename_i hunmapped
          exact hdone y p c hy hp hc hindex (by omega) hlevel (Bool.eq_false_iff.mpr hfree)
            (Bool.eq_false_iff.mpr hunmapped)

theorem wp_unmapPageTableCap_of
    (hdone : ∀ y p c, child = some y → k.cap x = .pageTable p → k.cap y = .pageTable c →
      index < NUM_PAGE_TABLE_ENTRY → entryAddr p p.level index < CONFIG_KERNEL_SPACE_BASE →
      (k.pte p.table index).isEnabled = true → c.mapped = true →
      (k.pte p.table index).getNextPage = c.table →
      Q true ((k.setPte p.table index (k.pte p.table index).disable).setCap y
        (.pageTable { c with mapped := false, parentTable := none }))) :
    wp (unmapPageTableCap x index child) env Q E k := by
  unfold unmapPageTableCap
  rw [wp_bind]
  refine wp_readPageTable hE fun p hp => ?_
  rw [wp_bind]
  refine wp_checkArgs (fun e => hfail e) fun y hy hindex => ?_
  show wp (pageTableCap y >>= _) _ _ _ _
  rw [wp_bind]
  refine wp_readPageTable hE fun c hc => ?_
  rw [wp_bind, wp_get, wp_ite]
  split
  · exact hfail _
  · rename_i hva
    rw [wp_ite]
    split
    · exact hfail _
    · rename_i henabled
      rw [wp_ite]
      split
      · exact hfail _
      · rename_i hmapped
        rw [wp_ite]
        split
        · exact hfail _
        · rename_i hsame
          exact hdone y p c hy hp hc hindex (by omega) (Pte.isEnabled_of_not henabled)
            (Bool.of_not_eq_false hmapped) (not_not.mp hsame)

/-- The page is zeroed before it is entered, unless it is one of a device. -/
theorem wp_mapVirtPageCap_of
    (hdone : ∀ y p c memory, page = some y → k.cap x = .pageTable p → k.cap y = .virtPage c →
      index < NUM_PAGE_TABLE_ENTRY → entryAddr p c.level index < CONFIG_KERNEL_SPACE_BASE →
      (k.pte p.table index).isEnabled = false → c.mapped = false → c.level = p.level →
      Q true ((({ k with memory := memory }).setPte p.table index
        ((k.pte p.table index).fill (.userPage r w e) c.physAddr)).setCap y
        (.virtPage (c.mapTo r w e index (entryAddr p c.level index) p.table)))) :
    wp (mapVirtPageCap x index page r w e) env Q E k := by
  unfold mapVirtPageCap
  rw [wp_bind]
  refine wp_readPageTable hE fun p hp => ?_
  rw [wp_bind]
  refine wp_checkArgs (fun e => hfail e) fun y hy hindex => ?_
  show wp (virtPageCap y >>= _) _ _ _ _
  rw [wp_bind]
  refine wp_readVirtPage hE fun c hc => ?_
  rw [wp_ite]
  split
  · exact hfail _
  · rename_i hva
    rw [wp_bind, wp_get, wp_ite]
    split
    · exact hfail _
    · rename_i hfree
      rw [wp_ite]
      split
      · exact hfail _
      · rename_i hunmapped
        rw [wp_ite]
        split
        · exact hfail _
        · rename_i hlevel
          -- A page of a device is not zeroed, so there are two ways to the same stores.
          have hmap := fun memory => hdone y p c memory hy hp hc hindex (by omega)
            (Bool.eq_false_iff.mpr hfree) (Bool.eq_false_iff.mpr hunmapped) (not_not.mp hlevel)
          unfold storeCap
          split
          · simp only [wp_bind, wp_modify, wp_pure]
            exact hmap _
          · simp only [wp_bind, wp_modify, wp_pure]
            exact hmap k.memory

theorem wp_unmapVirtPageCap_of
    (hdone : ∀ y p c, page = some y → k.cap x = .pageTable p → k.cap y = .virtPage c →
      index < NUM_PAGE_TABLE_ENTRY → entryAddr p c.level index < CONFIG_KERNEL_SPACE_BASE →
      (k.pte p.table index).isEnabled = true → c.mapped = true →
      (k.pte p.table index).getNextPage = c.physAddr →
      Q true ((k.setPte p.table index (k.pte p.table index).disable).setCap y
        (.virtPage { c with mapped := false, parentTable := none }))) :
    wp (unmapVirtPageCap x index page) env Q E k := by
  unfold unmapVirtPageCap
  rw [wp_bind]
  refine wp_readPageTable hE fun p hp => ?_
  rw [wp_bind]
  refine wp_checkArgs (fun e => hfail e) fun y hy hindex => ?_
  show wp (virtPageCap y >>= _) _ _ _ _
  rw [wp_bind]
  refine wp_readVirtPage hE fun c hc => ?_
  rw [wp_bind, wp_get, wp_ite]
  split
  · exact hfail _
  · rename_i hva
    rw [wp_ite]
    split
    · exact hfail _
    · rename_i henabled
      rw [wp_ite]
      split
      · exact hfail _
      · rename_i hmapped
        rw [wp_ite]
        split
        · exact hfail _
        · rename_i hsame
          exact hdone y p c hy hp hc hindex (by omega) (Pte.isEnabled_of_not henabled)
            (Bool.of_not_eq_false hmapped) (not_not.mp hsame)

theorem wp_remapVirtPageCap_of
    (hdone : ∀ y o p q c, page = some y → old = some o → k.cap x = .pageTable p →
      k.cap o = .pageTable q → k.cap y = .virtPage c → index < NUM_PAGE_TABLE_ENTRY →
      entryAddr p c.level index < CONFIG_KERNEL_SPACE_BASE → c.mapped = true →
      p.level = q.level ∧ p.level = c.level → (k.pte p.table index).isEnabled = false →
      (k.pte q.table c.index).isEnabled = true →
      (k.pte q.table c.index).getNextPage = c.physAddr →
      ∀ k₁, k₁ = k.setPte q.table c.index (k.pte q.table c.index).disable →
      Q true ((k₁.setPte p.table index
        ((k₁.pte p.table index).fill (.userPage r w e) c.physAddr)).setCap y
        (.virtPage (c.mapTo r w e index (entryAddr p c.level index) p.table)))) :
    wp (remapVirtPageCap x index page r w e old) env Q E k := by
  unfold remapVirtPageCap
  rw [wp_bind]
  refine wp_readPageTable hE fun p hp => ?_
  rw [wp_bind]
  refine wp_checkArgs (fun e => hfail e) fun y hy hindex => ?_
  show wp (checkArgs index old .pageTable >>= _) _ _ _ _
  rw [wp_bind]
  refine wp_checkArgs (fun e => hfail e) fun o ho _ => ?_
  show wp (virtPageCap y >>= _) _ _ _ _
  rw [wp_bind]
  refine wp_readVirtPage hE fun c hc => ?_
  rw [wp_bind]
  refine wp_readPageTable hE fun q hq => ?_
  rw [wp_bind, wp_get, wp_ite]
  split
  · exact hfail _
  · rename_i hva
    rw [wp_ite]
    split
    · exact hfail _
    · rename_i hmapped
      rw [wp_ite]
      split
      · exact hfail _
      · rename_i hlevels
        rw [wp_ite]
        split
        · exact hfail _
        · rename_i hlevel
          rw [wp_bind, wp_get, wp_ite]
          split
          · exact hfail _
          · rename_i hfree
            rw [wp_ite]
            split
            · exact hfail _
            · rename_i henabled
              rw [wp_ite]
              split
              · exact hfail _
              · rename_i hsame
                -- All checks have passed: the old entry is disabled, then the new one is filled.
                exact hdone y o p q c hy ho hp hq hc hindex (by omega)
                  (Bool.of_not_eq_false hmapped) ⟨not_not.mp hlevels, not_not.mp hlevel⟩
                  (Bool.eq_false_iff.mpr hfree) (Pte.isEnabled_of_not henabled)
                  (not_not.mp hsame) _ rfl

end Rules

/-! ### The five operations as moves -/

/-- An entry and the record of it are written. -/
theorem StoreInv.setRecord (h : StoreInv k ∅) (hs : k.cap s ≠ .null) (hc : c ≠ .null)
    (table : TablePtr) (index : Nat) (e : Pte) :
    StoreInv ((k.setPte table index e).setCap s c) ∅ ∧
      ((k.setPte table index e).setCap s c).store = { k.store.setCap s c with
        tables := setEntry k.store.tables table index e } := by
  refine ⟨(h.setPte table index e).update hs hc, ?_⟩
  rw [setCap_store (k := k.setPte table index e) hs hc]
  rfl

theorem StoreInv.setMemory (h : StoreInv k ∅) (memory : PhysAddr → UInt8) :
    StoreInv { k with memory := memory } ∅ :=
  (⟨rfl, rfl, fun _ => rfl, fun _ => rfl, fun _ => Iff.rfl⟩ :
    StoreFrame k { k with memory := memory }).storeInv h

theorem wp_mapPageTableCap {child : Option SlotPtr} (h : StoreInv k ∅) :
    wp (mapPageTableCap x index child) (.debug cfg) (Maps k .map) NoSwitch k := by
  refine wp_mapPageTableCap_of noSwitch_fatal (fun e => does_errno h e)
    fun y p c _ hp hc hindex hva hlevel hfree hunmapped => ?_
  obtain ⟨hinv, hstore⟩ := h.setRecord (s := y) (by simp [hc])
    (c := .pageTable { c with
      mapped := true
      level := p.level - 1
      virtAddrBase := entryAddr p p.level index % CONFIG_MAX_VIRTUAL_ADDRESS
      parentTable := some p.table }) (by simp) p.table index
    ((k.pte p.table index).fill .table c.table)
  exact ⟨hinv, hstore ▸ .single (.mapTable hp hc hindex hva hlevel hfree hunmapped)⟩

theorem wp_unmapPageTableCap {child : Option SlotPtr} (h : StoreInv k ∅) :
    wp (unmapPageTableCap x index child) (.debug cfg) (Maps k .map) NoSwitch k := by
  refine wp_unmapPageTableCap_of noSwitch_fatal (fun e => does_errno h e)
    fun y p c _ hp hc hindex hva henabled hmapped hsame => ?_
  obtain ⟨hinv, hstore⟩ := h.setRecord (s := y) (by simp [hc])
    (c := .pageTable { c with mapped := false, parentTable := none }) (by simp) p.table
    index (k.pte p.table index).disable
  exact ⟨hinv, hstore ▸ .single (.unmapTable hp hc hindex hva henabled hmapped hsame)⟩

theorem wp_mapVirtPageCap {page : Option SlotPtr} {r w e : Bool} (h : StoreInv k ∅) :
    wp (mapVirtPageCap x index page r w e) (.debug cfg) (Maps k .map) NoSwitch k := by
  refine wp_mapVirtPageCap_of noSwitch_fatal (fun e => does_errno h e)
    fun y p c memory _ hp hc hindex hva hfree hunmapped hlevel => ?_
  obtain ⟨hinv, hstore⟩ := (h.setMemory memory).setRecord (s := y)
    (show k.cap y ≠ .null by simp [hc])
    (c := .virtPage (c.mapTo r w e index (entryAddr p c.level index) p.table)) (by simp)
    p.table index ((k.pte p.table index).fill (.userPage r w e) c.physAddr)
  refine ⟨hinv, ?_⟩
  rw [hstore]
  exact .single (.mapPage hp hc hindex hva hfree hunmapped hlevel)

theorem wp_unmapVirtPageCap {page : Option SlotPtr} (h : StoreInv k ∅) :
    wp (unmapVirtPageCap x index page) (.debug cfg) (Maps k .map) NoSwitch k := by
  refine wp_unmapVirtPageCap_of noSwitch_fatal (fun e => does_errno h e)
    fun y p c _ hp hc hindex hva henabled hmapped hsame => ?_
  obtain ⟨hinv, hstore⟩ := h.setRecord (s := y) (by simp [hc])
    (c := .virtPage { c with mapped := false, parentTable := none }) (by simp) p.table
    index (k.pte p.table index).disable
  exact ⟨hinv, hstore ▸ .single (.unmapPage hp hc hindex hva henabled hmapped hsame)⟩

theorem wp_remapVirtPageCap {page old : Option SlotPtr} {r w e : Bool} (h : StoreInv k ∅) :
    wp (remapVirtPageCap x index page r w e old) (.debug cfg) (Maps k .map) NoSwitch k := by
  refine wp_remapVirtPageCap_of noSwitch_fatal (fun e => does_errno h e)
    fun y o p q c _ _ hp hq hc hindex hva hmapped hlevel hfree henabled hsame k₁ hk₁ => ?_
  have hinv₁ : StoreInv k₁ ∅ := hk₁ ▸ h.setPte _ _ _
  have hc₁ : k₁.cap y = .virtPage c := by rw [hk₁]; exact hc
  obtain ⟨hinv, hstore⟩ := hinv₁.setRecord (s := y) (by simp [hc₁])
    (c := .virtPage (c.mapTo r w e index (entryAddr p c.level index) p.table))
    (by simp) p.table index
    ((k₁.pte p.table index).fill (.userPage r w e) c.physAddr)
  refine ⟨hinv, ?_⟩
  rw [hstore, hk₁]
  exact .single (.remapPage hp hq hc hindex hva hmapped hlevel hfree henabled hsame)

/-! ### Capability spaces -/

/-- The space behind an unused capability is attached nowhere. -/
def AttachOk (k : Kernel) (y : SlotPtr) : Prop :=
  ∀ p, k.cap y = .capSpace p → p.used = false → (k.capSpaces p.space).task = none

instance (k : Kernel) (y : SlotPtr) : Decidable (AttachOk k y) :=
  match hy : k.cap y with
  | .capSpace p => decidable_of_iff (p.used = false → (k.capSpaces p.space).task = none)
      ⟨fun h _ heq => by rw [hy] at heq; cases heq; exact h, fun h => h p hy⟩
  | .null | .memory _ | .task _ | .endpoint _ | .pageTable _ | .virtPage _ | .id _ | .zombie =>
    isTrue fun _ hp => by rw [hy] at hp; cases hp

/-- The answer of `insert_cap_space`. The space must not be in use. -/
def AttachAnswers (k : Kernel) (y : SlotPtr) : Bool → Kernel → Prop
  | false, k' => Does k [] k'
  | true, k' => AttachOk k y → Does k [.attach] k'

theorem wp_insertCapSpaceCap (h : StoreInv k ∅) :
    wp (insertCapSpaceCap x y) (.debug cfg) (AttachAnswers k y) NoSwitch k := by
  unfold insertCapSpaceCap
  rw [wp_bind]
  refine wp_readTask noSwitch_fatal fun c hc => ?_
  rw [wp_bind]
  refine wp_readCapSpace noSwitch_fatal fun p hp => ?_
  rw [wp_bind, wp_get, wp_ite]
  split
  · exact does_errno h _
  · rename_i halive
    rw [wp_ite]
    split
    · exact does_errno h _
    · rename_i hused
      have hused : p.used = false := Bool.eq_false_iff.mpr hused
      rw [wp_bind]
      by_cases hok : AttachOk k y
      · have hdetached : (k.capSpaces p.space).task = none := hok p hp hused
        refine wp_insertCapSpace h (fun hu => halive (Or.inl hu)) hdetached rfl
          (fun e => does_errno h e) fun k₁ _ hfree hinv₁ hstore₁ => ?_
        have hcap₁ : k₁.cap = k.cap := congrArg CapStore.cap hstore₁
        have hp₁ : k₁.cap y = .capSpace p := by rw [hcap₁, hp]
        simp only [if_true, wp_bind, wp_get, hp₁]
        have hstore : (k₁.setCap y (.capSpace { p with used := true })).store
            = k₁.store.setCap y (.capSpace { p with used := true }) :=
          setCap_store (by simp [hp₁]) (by simp)
        have hmove : Trans k.store .attach
            (k₁.setCap y (.capSpace { p with used := true })).store := by
          rw [hstore, hstore₁]
          exact .attach hc hp hused hdetached hfree
        exact fun _ => ⟨hinv₁.update (by simp [hp₁]) (by simp), .single hmove⟩
      · refine wp_insertCapSpace_any (fun e => does_errno h e) fun k₁ => ?_
        rw [wp_ite, if_pos rfl]
        simp only [wp_bind, wp_get]
        split
        · exact fun h => absurd h hok
        · exact fun h => absurd h hok

theorem wp_extendCapSpaceCap (h : StoreInv k ∅) :
    wp (extendCapSpaceCap x y) (.debug cfg) (Maps k .extend) NoSwitch k := by
  unfold extendCapSpaceCap
  rw [wp_bind]
  refine wp_readTask noSwitch_fatal fun c hc => ?_
  rw [wp_bind]
  refine wp_readPageTable noSwitch_fatal fun p hp => ?_
  rw [wp_bind, wp_get, wp_ite]
  split
  · exact wp_failWith h _
  · rw [wp_ite]
    split
    · exact wp_failWith h _
    · rename_i hunmapped
      rw [wp_bind]
      refine wp_extendCapSpace h rfl (fun e => does_errno h e)
        fun k₁ table index _ _ _ hfree hinv₁ hstore₁ _ _ => ?_
      have hcap₁ : k₁.cap = k.cap := congrArg CapStore.cap hstore₁
      have hp₁ : k₁.cap y = .pageTable p := by rw [hcap₁, hp]
      simp only [wp_bind, wp_get]
      refine wp_walkEnabled _ _ fun _ => ?_
      refine wp_pageTableWalk ?_
      rw [wp_kassert]
      split
      · unfold storeCap
        simp only [wp_ask, wp_modify, wp_pure]
        generalize hnew : Capability.pageTable { p with
          mapped := true
          level := cfg.kiloPage % 4
          virtAddrBase := _
          parentTable := _ } = new
        have hstore : (k₁.setCap y new).store = k₁.store.setCap y new :=
          setCap_store (by simp [hp₁]) (by simp [← hnew])
        refine ⟨hinv₁.update (by simp [hp₁]) (by simp [← hnew]), ?_⟩
        have hmove : Trans k.store .extend (k₁.setCap y new).store := by
          rw [hstore, hstore₁, ← hnew]
          exact .extend hc hp (Bool.eq_false_iff.mpr hunmapped) hfree
        exact .single hmove
      · exact Stop.noConfusion

end Caprese
