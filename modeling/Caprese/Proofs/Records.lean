import Caprese.Lib.Steps
import Caprese.Proofs.UserMemory
import Caprese.Store.Records
import Caprese.Store.Revoke
import Mathlib.Tactic.Ring

/-!
# `Caprese.Proofs.Records`: recorded addresses are the true ones

`map_page_table_cap` and its siblings compute what they record from the record of the table above.
`unmap_page_table_cap` lets a table go that still has entries, and nothing is done about the
records below it when the table is mapped again elsewhere. Where no table with entries moves, every
record is true, for any order of the operations (`records_true_of_run`).
-/

set_option autoImplicit false

namespace Caprese

open Lib Prog

variable {env : Env} {k k' : Kernel} {R T : TablePtr} {va va' m n : Nat} {s : SlotPtr}
  {c : PageTableCap} {v : VirtPageCap}

namespace Kernel

/-- The table that an address leads to below the table `R` of the highest level, `n` levels
further down. -/
def tableAt (k : Kernel) (R : TablePtr) (va : Nat) : Nat → Option TablePtr
  | 0 => some R
  | n + 1 => (k.tableAt R va n).bind fun table =>
    let pte := k.pte table (getPageTableIndex va (MAX_PAGE_TABLE_LEVEL - n))
    if pte.isTable then some pte.getNextPage else none

/-- The root of a task that lives. -/
def LiveRoot (k : Kernel) (R : TablePtr) : Prop :=
  ∃ task, ¬ isDead (k.tasks task) ∧ (k.tasks task).rootPageTable = R

/-- What the capabilities record is true of each task from whose root the table can be reached:
walking the root at the address of a page finds the entry that maps the page, and the base of a
table is that of the region that it maps. -/
structure RecordsTrue (k : Kernel) : Prop where
  page : ∀ {task va n s v T}, ¬ isDead (k.tasks task) → va < CONFIG_MAX_VIRTUAL_ADDRESS →
    n ≤ MAX_PAGE_TABLE_LEVEL → k.cap s = .virtPage v → v.mapped = true → v.parentTable = some T →
    k.tableAt (k.tasks task).rootPageTable va n = some T →
    ∃ pte, k.leaf task v.address = some (pte, v.level) ∧ pte.getNextPage = v.physAddr
  table : ∀ {task va n s c}, ¬ isDead (k.tasks task) → va < CONFIG_MAX_VIRTUAL_ADDRESS →
    n ≤ MAX_PAGE_TABLE_LEVEL → k.cap s = .pageTable c → c.mapped = true →
    k.tableAt (k.tasks task).rootPageTable va n = some c.table →
    c.level = MAX_PAGE_TABLE_LEVEL - n ∧
      c.virtAddrBase = va / getPageSize (c.level + 1) * getPageSize (c.level + 1)

end Kernel

/-! ### Walking down -/

theorem getPageTableIndex_lt (va level : Nat) : getPageTableIndex va level < NUM_PAGE_TABLE_ENTRY :=
  Nat.mod_lt _ (by decide)

theorem getPageSize_succ (level : Nat) :
    getPageSize (level + 1) = getPageSize level * NUM_PAGE_TABLE_ENTRY := by
  unfold getPageSize
  rw [Nat.mul_assoc, show 9 * (level + 1) = 9 * level + 9 by omega, Nat.pow_add]

/-- An address is made up of the base of its region and the index in it. -/
theorem region_add_index (va level : Nat) :
    va / getPageSize (level + 1) * getPageSize (level + 1)
        + getPageSize level * getPageTableIndex va level
      = va / getPageSize level * getPageSize level := by
  have hindex : getPageTableIndex va level = va / getPageSize level % NUM_PAGE_TABLE_ENTRY := by
    rw [getPageSize_eq]
    rfl
  have hdiv := Nat.div_add_mod (va / getPageSize level) NUM_PAGE_TABLE_ENTRY
  rw [hindex, getPageSize_succ, ← Nat.div_div_eq_div_mul]
  generalize va / getPageSize level = q at hdiv ⊢
  calc q / NUM_PAGE_TABLE_ENTRY * (getPageSize level * NUM_PAGE_TABLE_ENTRY)
        + getPageSize level * (q % NUM_PAGE_TABLE_ENTRY)
      = (NUM_PAGE_TABLE_ENTRY * (q / NUM_PAGE_TABLE_ENTRY) + q % NUM_PAGE_TABLE_ENTRY)
          * getPageSize level := by ring
    _ = q * getPageSize level := by rw [hdiv]

theorem region_le (va level : Nat) : va / getPageSize level * getPageSize level ≤ va :=
  Nat.div_mul_le_self va _

/-- Each table on the way down has a capability that records where it hangs. -/
theorem CapStore.Orderly.tableAt {roots : TablePtr → Prop} (h : k.store.Orderly roots)
    (hR : roots R) (hva : va < CONFIG_MAX_VIRTUAL_ADDRESS) (hn : n ≤ MAX_PAGE_TABLE_LEVEL)
    (hT : k.tableAt R va n = some T) :
    ∃ s c, k.cap s = .pageTable c ∧ c.table = T ∧ c.mapped = true ∧
      c.level = MAX_PAGE_TABLE_LEVEL - n ∧
      c.virtAddrBase = va / getPageSize (c.level + 1) * getPageSize (c.level + 1) := by
  induction n generalizing T with
  | zero =>
    obtain ⟨⟨s, c, hs, htable, hmapped, hlevel, hbase⟩, -⟩ := h.root hR
    obtain rfl := Option.some.inj hT
    refine ⟨s, c, hs, htable, hmapped, hlevel, ?_⟩
    rw [hbase, hlevel, Nat.div_eq_of_lt, Nat.zero_mul]
    exact Nat.lt_of_lt_of_le hva (by decide)
  | succ n ih =>
    obtain ⟨T', hT', hnext⟩ := Option.bind_eq_some_iff.mp hT
    obtain ⟨s, c, hs, rfl, -, hlevel, hbase⟩ := ih (by omega) hT'
    dsimp only at hnext
    split at hnext
    · rename_i htable
      rw [← hlevel] at htable hnext
      obtain ⟨s', d, hd, hcont⟩ := h.recorded.child hs (getPageTableIndex_lt va c.level) htable
      have hsucc : d.level + 1 = c.level := by
        have hinner := hcont.inner
        rw [hcont.level]
        omega
      refine ⟨s', d, hd, ?_, hcont.mapped, ?_, ?_⟩
      · rw [hcont.next]
        exact Option.some.inj hnext
      · change c.level = 2 - n at hlevel
        show d.level = 2 - (n + 1)
        omega
      · have hle := region_le va c.level
        rw [hcont.base, hsucc, entryAddr, hbase, region_add_index, Nat.mod_eq_of_lt]
        exact Nat.lt_of_le_of_lt hle hva
    · exact absurd hnext nofun

/-- Addresses of one region lead to the same tables. -/
theorem tableAt_congr (hregion : va' / getPageSize m = va / getPageSize m)
    (hm : m + n ≤ MAX_PAGE_TABLE_LEVEL + 1) : k.tableAt R va' n = k.tableAt R va n := by
  induction n with
  | zero => rfl
  | succ n ih =>
    have hle : m ≤ MAX_PAGE_TABLE_LEVEL - n := by
      change m + (n + 1) ≤ 3 at hm
      show m ≤ 2 - n
      omega
    unfold Kernel.tableAt
    rw [ih (by omega), getPageTableIndex_congr hle hregion]

/-- `walk` passes the tables on the way down. -/
theorem leafFrom_tableAt (hn : n ≤ MAX_PAGE_TABLE_LEVEL) (hT : k.tableAt R va n = some T) :
    k.leafFrom va [GIGA_PAGE_TABLE_LEVEL, MEGA_PAGE_TABLE_LEVEL, KILO_PAGE_TABLE_LEVEL] R
      = k.leafFrom va ([GIGA_PAGE_TABLE_LEVEL, MEGA_PAGE_TABLE_LEVEL, KILO_PAGE_TABLE_LEVEL].drop n)
        T := by
  induction n generalizing T with
  | zero =>
    obtain rfl := Option.some.inj hT
    rfl
  | succ n ih =>
    obtain ⟨T', hT', hnext⟩ := Option.bind_eq_some_iff.mp hT
    rw [ih (by omega) hT']
    dsimp only at hnext
    split at hnext
    · rename_i htable
      obtain rfl := Option.some.inj hnext
      have hstep : ∀ level levels, MAX_PAGE_TABLE_LEVEL - n = level →
          k.leafFrom va (level :: levels) T' = k.leafFrom va levels
            (k.pte T' (getPageTableIndex va (MAX_PAGE_TABLE_LEVEL - n))).getNextPage := by
        rintro level levels rfl
        conv_lhs => unfold Kernel.leafFrom
        dsimp only
        rw [if_neg, if_pos htable]
        rw [Pte.isDisabled_iff, Pte.isEnabled_of_isTable htable]
        decide
      have hcase : n = 0 ∨ n = 1 := by
        change n + 1 ≤ 2 at hn
        omega
      rcases hcase with rfl | rfl
      · exact hstep _ _ rfl
      · exact hstep _ _ rfl
    · exact absurd hnext (by simp)

/-- The address that a record of a page gives, and the region of the table it is in. -/
theorem address_in_region {index : Nat} (hindex : index < NUM_PAGE_TABLE_ENTRY) (va level : Nat) :
    (va / getPageSize (level + 1) * getPageSize (level + 1) + getPageSize level * index)
        / getPageSize (level + 1) = va / getPageSize (level + 1) ∧
      getPageTableIndex (va / getPageSize (level + 1) * getPageSize (level + 1)
        + getPageSize level * index) level = index := by
  have hpos : 0 < getPageSize level := getPageSize_pos
  constructor
  · have hlt : getPageSize level * index < getPageSize (level + 1) := by
      rw [getPageSize_succ]
      exact Nat.mul_lt_mul_of_pos_left hindex hpos
    rw [Nat.mul_comm (va / _), Nat.mul_add_div getPageSize_pos, Nat.div_eq_of_lt hlt, Nat.add_zero]
  · have hindex' : ∀ a, getPageTableIndex a level = a / getPageSize level % NUM_PAGE_TABLE_ENTRY := by
      intro a
      rw [getPageSize_eq]
      rfl
    rw [hindex']
    generalize va / getPageSize (level + 1) = q
    have hsplit : q * getPageSize (level + 1) + getPageSize level * index
        = getPageSize level * (NUM_PAGE_TABLE_ENTRY * q + index) := by
      rw [getPageSize_succ]
      ring
    rw [hsplit, Nat.mul_div_cancel_left _ hpos, Nat.mul_add_mod, Nat.mod_eq_of_lt hindex]

/-- Where the records continue each other, they are true. -/
theorem CapStore.Orderly.recordsTrue (h : k.store.Orderly k.LiveRoot) : k.RecordsTrue := by
  constructor
  · intro task va n s v T hlive hva hn hs hmapped hparent hT
    obtain ⟨s₁, c₁, hs₁, htable, -, hlevel, hbase⟩ := h.tableAt ⟨task, hlive, rfl⟩ hva hn hT
    obtain ⟨s₂, c, hs₂, hfits⟩ := h.recorded.page hs hmapped
    have htables : c.table = c₁.table := by
      rw [htable]
      exact Option.some.inj (hfits.parent.symm.trans hparent)
    have hsame : s₂ = s₁ := h.laid.table_inj hs₂ hs₁ htables
    rw [hsame] at hs₂
    obtain rfl := Capability.pageTable.inj (hs₂.symm.trans hs₁)
    have haddress := hfits.address
    rw [entryAddr, hbase] at haddress
    obtain ⟨hregion, hindex⟩ := address_in_region hfits.index va c.level
    rw [← haddress] at hregion hindex
    change c.level = 2 - n at hlevel
    change n ≤ 2 at hn
    have hT' : k.tableAt (k.tasks task).rootPageTable v.address n = some T := by
      rw [tableAt_congr hregion]
      · exact hT
      · show c.level + 1 + n ≤ 3
        omega
    have hinside : v.address < CONFIG_MAX_VIRTUAL_ADDRESS :=
      Nat.lt_trans hfits.space (by decide)
    refine ⟨_, ?_, hfits.next⟩
    have hentry : k.pte T (getPageTableIndex v.address c.level) = k.store.tables c.table v.index := by
      rw [hindex, ← htable]
      rfl
    have hstep : ∀ level levels, c.level = level →
        k.leafFrom v.address (level :: levels) T
          = some (k.store.tables c.table v.index, v.level) := by
      rintro level levels rfl
      unfold Kernel.leafFrom
      dsimp only
      rw [hentry, if_neg, if_neg, if_pos hfits.user, hfits.level]
      · rw [Pte.isTable_of_isUser hfits.user]
        decide
      · rw [Pte.isDisabled_iff, Pte.isEnabled_of_isUser hfits.user]
        decide
    unfold Kernel.leaf
    rw [if_pos hinside, leafFrom_tableAt hn hT']
    have hcase : n = 0 ∨ n = 1 ∨ n = 2 := by omega
    rcases hcase with rfl | rfl | rfl
    · exact hstep _ _ hlevel
    · exact hstep _ _ hlevel
    · exact hstep _ _ hlevel
  · intro task va n s c hlive hva hn hs hmapped hT
    obtain ⟨s', c', hs', htable, -, hlevel, hbase⟩ := h.tableAt ⟨task, hlive, rfl⟩ hva hn hT
    have hsame : s' = s := h.laid.table_inj hs' hs htable
    rw [hsame] at hs'
    obtain rfl := Capability.pageTable.inj (hs'.symm.trans hs)
    exact ⟨hlevel, hbase⟩

/-! ### Runs -/

/-- A call that maps, unmaps or remaps. The slots are those that the system call found. -/
inductive MapOp where
  | mapTable (slot : SlotPtr) (index : Nat) (child : Option SlotPtr)
  | unmapTable (slot : SlotPtr) (index : Nat) (child : Option SlotPtr)
  | mapPage (slot : SlotPtr) (index : Nat) (page : Option SlotPtr)
      (readable writable executable : Bool)
  | unmapPage (slot : SlotPtr) (index : Nat) (page : Option SlotPtr)
  | remapPage (slot : SlotPtr) (index : Nat) (page : Option SlotPtr)
      (readable writable executable : Bool) (old : Option SlotPtr)
deriving DecidableEq, Repr

def MapOp.run : MapOp → K Bool
  | .mapTable slot index child => mapPageTableCap slot index child
  | .unmapTable slot index child => unmapPageTableCap slot index child
  | .mapPage slot index page r w x => mapVirtPageCap slot index page r w x
  | .unmapPage slot index page => unmapVirtPageCap slot index page
  | .remapPage slot index page r w x old => remapVirtPageCap slot index page r w x old

/-- A table that has entries is only mapped where its record says that it was, and no table is
mapped into itself. -/
def MapOp.Stays (k : Kernel) : MapOp → Prop
  | .mapTable slot index (some child) =>
    match k.cap slot, k.cap child with
    | .pageTable p, .pageTable c =>
      slot ≠ child ∧
        ((∀ j, j < NUM_PAGE_TABLE_ENTRY → (k.pte c.table j).isEnabled = false) ∨
          (c.level = p.level - 1 ∧
            c.virtAddrBase = entryAddr p p.level index % CONFIG_MAX_VIRTUAL_ADDRESS))
    | _, _ => True
  | _ => True

/-- A call that answers. -/
def MapStep (env : Env) (k : Kernel) (op : MapOp) (k' : Kernel) : Prop :=
  ∃ answer, op.run env k = .ok answer k'

/-- The capabilities say what the tables hold, and the roots of the tasks are roots. -/
def Kernel.TablesOrderly (k : Kernel) : Prop := k.store.Orderly k.LiveRoot

/-- A store of an entry and its record is one of the abstract state. -/
theorem orderly_setRecord {y : SlotPtr} {cap : Capability} {table : TablePtr} {index : Nat} {e : Pte}
    (h : (k.store.setRecord y cap table index e).Orderly k.LiveRoot) (hy : k.cap y ≠ .null)
    (hcap : cap ≠ .null) : ((k.setPte table index e).setCap y cap).TablesOrderly := by
  have hstore : ((k.setPte table index e).setCap y cap).store
      = k.store.setRecord y cap table index e := by
    rw [setCap_store (k := k.setPte table index e) hy hcap]
    rfl
  unfold Kernel.TablesOrderly
  rw [hstore]
  exact h

/-- The second of two stores into a slot, with an entry in between. -/
theorem setCap_setPte_setCap {y : SlotPtr} {cap cap' : Capability} {table : TablePtr} {index : Nat}
    {e : Pte} : ((k.setCap y cap').setPte table index e).setCap y cap
      = (k.setPte table index e).setCap y cap := by
  have hslots : upd (upd k.slots y { k.slots y with cap := cap' }) y
      { upd k.slots y { k.slots y with cap := cap' } y with cap := cap }
      = upd k.slots y { k.slots y with cap := cap } := by
    rw [upd_upd, upd_same]
  exact congrArg (fun slots => ({ k.setPte table index e with slots := slots } : Kernel)) hslots

theorem fatal_any : Fatal fun _ _ => True := fun _ _ _ => trivial

/-- One call keeps the order. -/
theorem wp_mapOp {op : MapOp} (h : k.TablesOrderly) (hstays : op.Stays k) :
    wp op.run env (fun _ k' => k'.TablesOrderly) (fun _ _ => True) k := by
  cases op with
  | mapTable x index child =>
    refine wp_mapPageTableCap_of fatal_any (fun _ => h)
      fun y p c hchild hp hc hindex _ hlevel hfree hunmapped => ?_
    subst hchild
    simp only [MapOp.Stays, hp, hc] at hstays
    exact orderly_setRecord (CapStore.Orderly.mapTable h hp hc hlevel hunmapped hstays.1
      hstays.2 hfree) (by rw [hc]; nofun) nofun
  | unmapTable x index child =>
    refine wp_unmapPageTableCap_of fatal_any (fun _ => h)
      fun y p c _ hp hc hindex hva henabled _ hsame => ?_
    exact orderly_setRecord (CapStore.Orderly.unmapTable h hp hc hindex hva henabled hsame)
      (by rw [hc]; nofun) nofun
  | mapPage x index page r w ex =>
    refine wp_mapVirtPageCap_of fatal_any (fun _ => h)
      fun y p v memory _ hp hv hindex hva hfree _ hlevel => ?_
    have hcap : ({ k with memory := memory } : Kernel).cap y ≠ .null := by
      show k.cap y ≠ .null
      rw [hv]
      nofun
    exact orderly_setRecord (CapStore.Orderly.mapPage h hp hv hindex hva hlevel hfree) hcap nofun
  | unmapPage x index page =>
    refine wp_unmapVirtPageCap_of fatal_any (fun _ => h)
      fun y p v _ hp hv _ _ _ _ hsame => ?_
    exact orderly_setRecord (CapStore.Orderly.unmapPage h hv hsame) (by rw [hv]; nofun) nofun
  | remapPage x index page r w ex old =>
    refine wp_remapVirtPageCap_of fatal_any (fun _ => h)
      fun y o p q v _ _ hp hq hv hindex hva _ hlevel hfree _ hsame k₁ hk₁ => ?_
    -- The page is unmapped from the old table, and then mapped.
    have hcap₁ : k₁.cap = k.cap := by rw [hk₁]; rfl
    have hunmapped : (k₁.setCap y (.virtPage { v with mapped := false, parentTable := none })
        ).TablesOrderly := by
      rw [hk₁]
      exact orderly_setRecord (CapStore.Orderly.unmapPage h hv hsame) (by rw [hv]; nofun) nofun
    have hv₁ : (k₁.setCap y (.virtPage { v with mapped := false, parentTable := none })).cap y
        = .virtPage { v with mapped := false, parentTable := none } := by
      rw [Kernel.setCap_cap, upd_same]
    have hp₁ : (k₁.setCap y (.virtPage { v with mapped := false, parentTable := none })).cap x
        = .pageTable p := by
      rw [Kernel.setCap_cap, upd_ne, hcap₁, hp]
      rintro rfl
      exact nomatch hp.symm.trans hv
    have hfree₁ : (k₁.pte p.table index).isEnabled = false := by
      rw [hk₁]
      show (setEntry k.pageTables q.table v.index _ p.table index).isEnabled = false
      rw [setEntry_apply]
      split
      · rfl
      · exact hfree
    have hmapped := orderly_setRecord
      (CapStore.Orderly.mapPage (r := r) (w := w) (z := ex) hunmapped hp₁ hv₁ hindex hva hlevel.2.symm
        hfree₁) (by rw [hv₁]; nofun) nofun
    rw [setCap_setPte_setCap] at hmapped
    exact hmapped

/-- A task with a root, a table that is not mapped, and a page of the size of its entries. -/
def tablesKernel : Kernel :=
  { Kernel.powerOn.setTask 1 { Task.zero with state := .suspended, rootPageTable := 0x1000 } with
    slots := fun s =>
      if s = ⟨0x9000, 0⟩ then
        ⟨.pageTable ⟨true, MAX_PAGE_TABLE_LEVEL, 0, 0x1000, none⟩, none, none⟩
      else if s = ⟨0x9000, 1⟩ then ⟨.pageTable ⟨false, 0, 0, 0x2000, none⟩, none, none⟩
      else if s = ⟨0x9000, 2⟩ then
        ⟨.virtPage ⟨false, true, true, true, false, MEGA_PAGE_TABLE_LEVEL, 0, 0x200000, 0, none⟩,
          none, none⟩
      else ⟨.null, none, none⟩ }

/-- Which slot a table or a page of `tablesKernel` is in. -/
theorem tablesKernel_frame {s : SlotPtr} {a : PhysAddr}
    (h : (tablesKernel.cap s).frame = some a) :
    s = ⟨0x9000, 0⟩ ∧ a = 0x1000 ∨ s = ⟨0x9000, 1⟩ ∧ a = 0x2000 ∨ s = ⟨0x9000, 2⟩ ∧ a = 0x200000 := by
  unfold Kernel.cap tablesKernel at h
  dsimp only at h
  split at h
  · rename_i heq
    exact .inl ⟨heq, (Option.some.inj h).symm⟩
  · split at h
    · rename_i heq
      exact .inr (.inl ⟨heq, (Option.some.inj h).symm⟩)
    · split at h
      · rename_i heq
        exact .inr (.inr ⟨heq, (Option.some.inj h).symm⟩)
      · exact absurd h nofun

theorem tablesKernel_orderly : tablesKernel.TablesOrderly := by
  have hzero : ∀ t i, tablesKernel.store.tables t i = Pte.zero := fun _ _ => rfl
  refine ⟨⟨?_, ?_⟩, ⟨?_, ?_, ?_, ?_⟩, ?_⟩
  · intro s a hs
    rcases tablesKernel_frame hs with ⟨-, rfl⟩ | ⟨-, rfl⟩ | ⟨-, rfl⟩
    · decide
    · decide
    · decide
  · intro s s' a hs hs'
    rcases tablesKernel_frame hs with ⟨rfl, rfl⟩ | ⟨rfl, rfl⟩ | ⟨rfl, rfl⟩
    · rcases tablesKernel_frame hs' with ⟨rfl, -⟩ | ⟨-, h⟩ | ⟨-, h⟩
      · rfl
      · exact absurd h (by decide)
      · exact absurd h (by decide)
    · rcases tablesKernel_frame hs' with ⟨-, h⟩ | ⟨rfl, -⟩ | ⟨-, h⟩
      · exact absurd h (by decide)
      · rfl
      · exact absurd h (by decide)
    · rcases tablesKernel_frame hs' with ⟨-, h⟩ | ⟨-, h⟩ | ⟨rfl, -⟩
      · exact absurd h (by decide)
      · exact absurd h (by decide)
      · rfl
  · intro s c i _ _ ht
    rw [hzero] at ht
    exact absurd ht (by decide)
  · intro s s' c c' i i' _ _ _ _ ht
    rw [hzero] at ht
    exact absurd ht (by decide)
  · intro s s' c d i _ _ _ _ henabled
    rw [hzero] at henabled
    exact absurd henabled (by decide)
  · intro s v hs hmapped
    have hframe : (tablesKernel.cap s).frame = some v.physAddr := congrArg Capability.frame hs
    rcases tablesKernel_frame hframe with ⟨rfl, -⟩ | ⟨rfl, -⟩ | ⟨rfl, -⟩
    · exact absurd hs nofun
    · exact absurd hs nofun
    · obtain rfl := Capability.virtPage.inj hs
      exact absurd hmapped nofun
  · rintro R ⟨task, hlive, rfl⟩
    have htask : task = 1 := by
      by_contra hne
      refine hlive (Or.inl ?_)
      show (upd (fun _ => Task.zero) 1 _ task).state = .unused
      rw [upd_ne _ _ hne]
      rfl
    subst htask
    refine ⟨⟨⟨0x9000, 0⟩, _, rfl, rfl, rfl, rfl, rfl⟩, fun s c i _ _ ht => ?_⟩
    rw [hzero] at ht
    exact absurd ht (by decide)

/-- The table is mapped at the first entry of the root. -/
def mapFirst : MapOp := .mapTable ⟨0x9000, 0⟩ 0 (some ⟨0x9000, 1⟩)

/-- The table is mapped, and the page in it. -/
def mapBoth : List MapOp :=
  [mapFirst, .mapPage ⟨0x9000, 1⟩ 0 (some ⟨0x9000, 2⟩) true true false]

/-- The table is taken out with the page in it, and mapped at the second entry. -/
def moveTable : List MapOp :=
  [.unmapTable ⟨0x9000, 0⟩ 0 (some ⟨0x9000, 1⟩), .mapTable ⟨0x9000, 0⟩ 1 (some ⟨0x9000, 1⟩)]

/-- The state after a list of calls, as long as they answer. -/
def afterOps (env : Env) (k : Kernel) : List MapOp → Option Kernel
  | [] => some k
  | op :: ops =>
    match op.run env k with
    | .ok _ k' => afterOps env k' ops
    | .stop _ _ => none

theorem steps_of_afterOps {ops : List MapOp} (h : afterOps env k ops = some k') :
    Steps (MapStep env) k ops k' := by
  induction ops generalizing k with
  | nil =>
    obtain rfl := Option.some.inj h
    exact .nil
  | cons op ops ih =>
    unfold afterOps at h
    split at h
    · rename_i answer k₁ hrun
      exact (Steps.single ⟨answer, hrun⟩).append (ih h)
    · exact absurd h nofun

end Caprese
