import Caprese.Memory.Paging
import Caprese.Store.Mapping
import Caprese.Store.SpaceTables

/-!
# `Caprese.Store.Records`: what capabilities record of page tables

A capability of a table records the level and the base of the region that the table maps, and one
of a page its address. Both are computed from the record of the table that the new entry is in.
`CapStore.Recorded` says that the records continue each other along the entries, wherever the
tables hang. It is kept by each way to change an entry, with one condition: a table that has
entries is only mapped where its record says.
-/

set_option autoImplicit false

namespace Caprese

open Lib

variable {S : CapStore} {s s' x y : SlotPtr} {p c d : PageTableCap} {v : VirtPageCap}
  {a : PhysAddr} {i index : Nat} {e : Pte} {R : TablePtr}

/-! ### Entries -/

theorem Pte.isEnabled_of_isTable (h : e.isTable = true) : e.isEnabled = true := by
  unfold Pte.isTable at h
  simp only [Bool.and_eq_true] at h
  exact h.1.1.1.1.1

theorem Pte.isTable_of_isUser (h : e.isUser = true) : e.isTable = false := by
  unfold Pte.isUser at h
  rw [Bool.and_eq_true] at h
  unfold Pte.isTable
  rw [h.2]
  simp

theorem Pte.isEnabled_of_isUser (h : e.isUser = true) : e.isEnabled = true := by
  unfold Pte.isUser at h
  rw [Bool.and_eq_true] at h
  exact h.1

theorem Pte.not_isTable_of_disabled (h : e.isEnabled = false) : ¬ e.isTable = true := by
  intro htable
  rw [Pte.isEnabled_of_isTable htable] at h
  exact absurd h (by decide)

theorem fill_table_isTable {page : PhysAddr} : (e.fill .table page).isTable = true := rfl

theorem fill_userPage_isUser {r w z : Bool} {page : PhysAddr} :
    (e.fill (.userPage r w z) page).isUser = true := rfl

theorem disable_isEnabled : e.disable.isEnabled = false := rfl

/-! ### Tables and pages -/

/-- The table or the page that a capability stands for. -/
def Capability.frame : Capability → Option PhysAddr
  | .pageTable c => some c.table
  | .virtPage c => some c.physAddr
  | _ => none

/-- Each table and each page has one capability. -/
structure CapStore.Laid (S : CapStore) : Prop where
  page : ∀ {s a}, (S.cap s).frame = some a → IsPage a
  own : ∀ {s s' a}, (S.cap s).frame = some a → (S.cap s').frame = some a → s = s'

/-- Two capabilities record the same of a table. -/
structure PageTableCap.Same (d c : PageTableCap) : Prop where
  table : d.table = c.table
  level : d.level = c.level
  base : d.virtAddrBase = c.virtAddrBase

theorem PageTableCap.Same.entryAddr (h : d.Same c) : entryAddr d d.level i = entryAddr c c.level i := by
  unfold Caprese.entryAddr
  rw [h.level, h.base]

/-- The table entry is one of the record's, and leads to a table whose record continues it. -/
structure CapStore.Continues (S : CapStore) (c : PageTableCap) (i : Nat) (d : PageTableCap) : Prop where
  next : d.table = (S.tables c.table i).getNextPage
  mapped : d.mapped = true
  inner : c.level ≠ 0
  level : d.level = c.level - 1
  base : d.virtAddrBase = entryAddr c c.level i % CONFIG_MAX_VIRTUAL_ADDRESS

/-- The page is mapped by an entry of the table, and its record continues that of the table. -/
structure CapStore.Fits (S : CapStore) (c : PageTableCap) (v : VirtPageCap) : Prop where
  parent : v.parentTable = some c.table
  index : v.index < NUM_PAGE_TABLE_ENTRY
  level : v.level = c.level
  address : v.address = entryAddr c c.level v.index
  space : v.address < CONFIG_KERNEL_SPACE_BASE
  user : (S.tables c.table v.index).isUser = true
  next : (S.tables c.table v.index).getNextPage = v.physAddr

/-- The records continue each other along the entries. No two entries lead to one table, and none
that a user may change leads to a table as to a page. -/
structure CapStore.Recorded (S : CapStore) : Prop where
  child : ∀ {s c i}, S.cap s = .pageTable c → i < NUM_PAGE_TABLE_ENTRY →
    (S.tables c.table i).isTable = true → ∃ s' d, S.cap s' = .pageTable d ∧ S.Continues c i d
  single : ∀ {s s' c c' i i'}, S.cap s = .pageTable c → S.cap s' = .pageTable c' →
    i < NUM_PAGE_TABLE_ENTRY → i' < NUM_PAGE_TABLE_ENTRY →
    (S.tables c.table i).isTable = true → (S.tables c'.table i').isTable = true →
    (S.tables c.table i).getNextPage = (S.tables c'.table i').getNextPage → s = s' ∧ i = i'
  leaf : ∀ {s s' c d i}, S.cap s = .pageTable c → S.cap s' = .pageTable d →
    i < NUM_PAGE_TABLE_ENTRY → entryAddr c c.level i < CONFIG_KERNEL_SPACE_BASE →
    (S.tables c.table i).isEnabled = true → (S.tables c.table i).isTable = false →
    (S.tables c.table i).getNextPage ≠ d.table
  page : ∀ {s v}, S.cap s = .virtPage v → v.mapped = true →
    ∃ s' c, S.cap s' = .pageTable c ∧ S.Fits c v

/-- The root of a task: no entry leads to it. -/
def CapStore.IsRoot (S : CapStore) (R : TablePtr) : Prop :=
  (∃ s c, S.cap s = .pageTable c ∧ c.table = R ∧ c.mapped = true ∧ c.level = MAX_PAGE_TABLE_LEVEL ∧
    c.virtAddrBase = 0) ∧
  ∀ s c i, S.cap s = .pageTable c → i < NUM_PAGE_TABLE_ENTRY →
    (S.tables c.table i).isTable = true → (S.tables c.table i).getNextPage ≠ R

/-- The capabilities of tables and pages say what the tables hold. -/
structure CapStore.Orderly (S : CapStore) (roots : TablePtr → Prop) : Prop where
  laid : S.Laid
  recorded : S.Recorded
  root : ∀ {R}, roots R → S.IsRoot R

namespace CapStore

/-- The state after a store of an entry, and of the record of it in the capability of `y`. -/
def setRecord (S : CapStore) (y : SlotPtr) (cap : Capability) (table : TablePtr) (index : Nat)
    (e : Pte) : CapStore :=
  { S.setCap y cap with tables := setEntry S.tables table index e }

variable {cap : Capability} {table : TablePtr}

theorem setRecord_cap : (S.setRecord y cap table index e).cap s = if s = y then cap else S.cap s := by
  show upd S.cap y cap s = _
  rw [upd_apply]

theorem setRecord_tables (t : TablePtr) (i : Nat) : (S.setRecord y cap table index e).tables t i
    = if t = table ∧ i = index then e else S.tables t i := setEntry_apply t i e

theorem setRecord_other {t : TablePtr} (h : ¬ (t = table ∧ i = index)) :
    (S.setRecord y cap table index e).tables t i = S.tables t i := by
  rw [setRecord_tables, if_neg h]

namespace Laid

variable (h : S.Laid)

include h

theorem table_inj (hs : S.cap s = .pageTable c) (hs' : S.cap s' = .pageTable d)
    (heq : c.table = d.table) : s = s' :=
  h.own (by rw [hs]; rfl) (by rw [hs']; exact congrArg some heq.symm)

theorem page_inj {v' : VirtPageCap} (hs : S.cap s = .virtPage v) (hs' : S.cap s' = .virtPage v')
    (heq : v.physAddr = v'.physAddr) : s = s' :=
  h.own (by rw [hs]; rfl) (by rw [hs']; exact congrArg some heq.symm)

theorem apart (hs : S.cap s = .pageTable c) (hs' : S.cap s' = .virtPage v) :
    c.table ≠ v.physAddr := by
  intro heq
  have hsame : s = s' := h.own (by rw [hs]; rfl) (by rw [hs']; exact congrArg some heq.symm)
  rw [hsame, hs'] at hs
  exact absurd hs nofun

theorem setRecord (hframe : cap.frame = (S.cap y).frame) :
    (S.setRecord y cap table index e).Laid := by
  have hsame : ∀ s, ((S.setRecord y cap table index e).cap s).frame = (S.cap s).frame := by
    intro s
    rw [setRecord_cap]
    split
    · rename_i heq
      rw [hframe, heq]
    · rfl
  constructor
  · intro s a hs
    exact h.page (hsame s ▸ hs)
  · intro s s' a hs hs'
    exact h.own (hsame s ▸ hs) (hsame s' ▸ hs')

end Laid

/-! ### A store of an entry and its record -/

/-- What a store of the entry `index` of `table`, and of the record of it in the capability of `y`,
has to meet. -/
structure Writes (S : CapStore) (y : SlotPtr) (cap : Capability) (table : TablePtr) (index : Nat)
    (e : Pte) : Prop where
  frame : cap.frame = (S.cap y).frame
  kind : ∀ c, S.cap y = .pageTable c → ∃ d, cap = .pageTable d
  -- The record of a table stays, unless the table is empty.
  record : ∀ d, cap = .pageTable d → ∃ c, S.cap y = .pageTable c ∧
    (d.Same c ∨ ∀ i, i < NUM_PAGE_TABLE_ENTRY → (S.tables c.table i).isEnabled = false)
  -- No other entry leads to the table whose record is written.
  alone : ∀ d, S.cap y = .pageTable d → ∀ s c i, S.cap s = .pageTable c → i < NUM_PAGE_TABLE_ENTRY →
    (S.tables c.table i).isTable = true → ¬ (c.table = table ∧ i = index) →
    (S.tables c.table i).getNextPage ≠ d.table
  below : ∀ d, S.cap y = .pageTable d → ∀ R, S.IsRoot R → d.table ≠ R
  leads : e.isTable = true → ∃ d, S.cap y = .pageTable d ∧ e.getNextPage = d.table
  child : e.isTable = true → ∃ x p d, x ≠ y ∧ S.cap x = .pageTable p ∧ p.table = table ∧
    cap = .pageTable d ∧ d.mapped = true ∧ p.level ≠ 0 ∧ d.level = p.level - 1 ∧
    d.virtAddrBase = entryAddr p p.level index % CONFIG_MAX_VIRTUAL_ADDRESS
  leaf : e.isEnabled = true → e.isTable = false → ∀ s d, S.cap s = .pageTable d →
    e.getNextPage ≠ d.table
  -- The entries of the other pages are kept, and a page that is mapped has the new one.
  others : ∀ s v c, s ≠ y → S.cap s = .virtPage v → v.mapped = true → S.Fits c v →
    ¬ (c.table = table ∧ v.index = index)
  page : ∀ v, cap = .virtPage v → v.mapped = true → v.parentTable = some table ∧ v.index = index ∧
    index < NUM_PAGE_TABLE_ENTRY ∧ v.address < CONFIG_KERNEL_SPACE_BASE ∧ e.isUser = true ∧
    e.getNextPage = v.physAddr ∧ ∃ x p, S.cap x = .pageTable p ∧ p.table = table ∧ v.level = p.level ∧
      v.address = entryAddr p p.level index

/-- The record of a table that has an entry. -/
theorem same_of_enabled {i : Nat} (hsame : d.Same c ∨
      ∀ i, i < NUM_PAGE_TABLE_ENTRY → (S.tables c.table i).isEnabled = false)
    (hi : i < NUM_PAGE_TABLE_ENTRY) (henabled : (S.tables c.table i).isEnabled = true) :
    d.Same c := by
  rcases hsame with hsame | hempty
  · exact hsame
  · rw [hempty i hi] at henabled
    exact absurd henabled (by decide)

namespace Writes

variable (hw : S.Writes y cap table index e)

include hw

/-- The capability of a table before the store. -/
theorem before (hs : (S.setRecord y cap table index e).cap s = .pageTable d) :
    ∃ c, S.cap s = .pageTable c ∧ d.table = c.table ∧ (s ≠ y → d = c) ∧
      (d.Same c ∨ ∀ i, i < NUM_PAGE_TABLE_ENTRY → (S.tables c.table i).isEnabled = false) := by
  rw [setRecord_cap] at hs
  split at hs
  · rename_i heq
    subst heq
    obtain ⟨c, hc, hsame⟩ := hw.record d hs
    have hframe := hw.frame
    rw [hs, hc] at hframe
    exact ⟨c, hc, Option.some.inj hframe, fun hne => absurd rfl hne, hsame⟩
  · exact ⟨d, hs, rfl, fun _ => rfl, .inl ⟨rfl, rfl, rfl⟩⟩

/-- The capability of a table after the store. -/
theorem after (hs : S.cap s = .pageTable c) :
    ∃ d, (S.setRecord y cap table index e).cap s = .pageTable d ∧ (s ≠ y → d = c) ∧
      (d.Same c ∨ ∀ i, i < NUM_PAGE_TABLE_ENTRY → (S.tables c.table i).isEnabled = false) := by
  by_cases heq : s = y
  · subst heq
    obtain ⟨d, hd⟩ := hw.kind c hs
    obtain ⟨c', hc', hsame⟩ := hw.record d hd
    rw [hs] at hc'
    cases hc'
    refine ⟨d, ?_, fun hne => absurd rfl hne, hsame⟩
    rw [setRecord_cap, if_pos rfl, hd]
  · refine ⟨c, ?_, fun _ => rfl, .inl ⟨rfl, rfl, rfl⟩⟩
    rw [setRecord_cap, if_neg heq, hs]

theorem child_kept (hl : S.Laid) (hr : S.Recorded)
    (hs : (S.setRecord y cap table index e).cap s = .pageTable d) (hi : i < NUM_PAGE_TABLE_ENTRY)
    (ht : ((S.setRecord y cap table index e).tables d.table i).isTable = true) :
    ∃ s' d', (S.setRecord y cap table index e).cap s' = .pageTable d' ∧
      (S.setRecord y cap table index e).Continues d i d' := by
  obtain ⟨c, hc, htable, hother, hsame⟩ := hw.before hs
  by_cases hnew : d.table = table ∧ i = index
  · rw [setRecord_tables, if_pos hnew] at ht
    obtain ⟨x, p, d', hxy, hx, hp, hcap, hmapped, hinner, hlevel, hbase⟩ := hw.child ht
    obtain ⟨c', hc', hnext⟩ := hw.leads ht
    have hframe := hw.frame
    rw [hcap, hc'] at hframe
    have hxs : s = x := hl.table_inj hc hx (by rw [← htable, hnew.1, hp])
    subst hxs
    obtain rfl := hother hxy
    rw [hx] at hc
    obtain rfl := Capability.pageTable.inj hc
    refine ⟨y, d', by rw [setRecord_cap, if_pos rfl, hcap], ⟨?_, hmapped, hinner, hlevel, ?_⟩⟩
    · rw [setRecord_tables, if_pos hnew, hnext]
      exact Option.some.inj hframe
    · rw [hbase, hnew.2]
  · rw [setRecord_other hnew, htable] at ht
    have hsame := same_of_enabled hsame hi (Pte.isEnabled_of_isTable ht)
    obtain ⟨s', d', hd', hcont⟩ := hr.child hc hi ht
    have hs'y : s' ≠ y := by
      rintro rfl
      exact hw.alone d' hd' s c i hc hi ht (htable ▸ hnew) hcont.next.symm
    refine ⟨s', d', by rw [setRecord_cap, if_neg hs'y, hd'], ⟨?_, hcont.mapped, ?_, ?_, ?_⟩⟩
    · rw [setRecord_other hnew, htable, hcont.next]
    · rw [hsame.level]
      exact hcont.inner
    · rw [hsame.level]
      exact hcont.level
    · rw [hsame.entryAddr]
      exact hcont.base

/-- Where an entry of the state after the store leads: to the table of `y`, or it is an old one. -/
theorem entry_cases (hi : i < NUM_PAGE_TABLE_ENTRY) (hs : S.cap s = .pageTable c)
    (ht : ((S.setRecord y cap table index e).tables c.table i).isTable = true) :
    (c.table = table ∧ i = index ∧ (∃ d, S.cap y = .pageTable d ∧
        ((S.setRecord y cap table index e).tables c.table i).getNextPage = d.table)) ∨
      ((S.tables c.table i).isTable = true ∧
        (S.setRecord y cap table index e).tables c.table i = S.tables c.table i ∧
        ∀ d, S.cap y = .pageTable d → (S.tables c.table i).getNextPage ≠ d.table) := by
  by_cases hnew : c.table = table ∧ i = index
  · rw [setRecord_tables, if_pos hnew] at ht ⊢
    exact .inl ⟨hnew.1, hnew.2, hw.leads ht⟩
  · rw [setRecord_other hnew] at ht ⊢
    exact .inr ⟨ht, rfl, fun d hd => hw.alone d hd s c i hs hi ht hnew⟩

theorem single_kept (hl : S.Laid) (hr : S.Recorded) {c' : PageTableCap} {i' : Nat}
    (hs : S.cap s = .pageTable c) (hs' : S.cap s' = .pageTable c') (hi : i < NUM_PAGE_TABLE_ENTRY)
    (hi' : i' < NUM_PAGE_TABLE_ENTRY)
    (ht : ((S.setRecord y cap table index e).tables c.table i).isTable = true)
    (ht' : ((S.setRecord y cap table index e).tables c'.table i').isTable = true)
    (heq : ((S.setRecord y cap table index e).tables c.table i).getNextPage
      = ((S.setRecord y cap table index e).tables c'.table i').getNextPage) :
    s = s' ∧ i = i' := by
  rcases hw.entry_cases hi hs ht with ⟨htable, hindex, d, hd, hnext⟩ | ⟨hold, hsame, hno⟩
  · rcases hw.entry_cases hi' hs' ht' with ⟨htable', hindex', -⟩ | ⟨-, hsame', hno'⟩
    · exact ⟨hl.table_inj hs hs' (htable.trans htable'.symm), hindex.trans hindex'.symm⟩
    · rw [hnext, hsame'] at heq
      exact absurd heq.symm (hno' d hd)
  · rcases hw.entry_cases hi' hs' ht' with ⟨-, -, d, hd, hnext⟩ | ⟨hold', hsame', -⟩
    · rw [hnext, hsame] at heq
      exact absurd heq (hno d hd)
    · rw [hsame, hsame'] at heq
      exact hr.single hs hs' hi hi' hold hold' heq

theorem leaf_kept (hr : S.Recorded) {d' : PageTableCap}
    (hs : (S.setRecord y cap table index e).cap s = .pageTable d) (hs' : S.cap s' = .pageTable d')
    (hi : i < NUM_PAGE_TABLE_ENTRY) (hva : entryAddr d d.level i < CONFIG_KERNEL_SPACE_BASE)
    (henabled : ((S.setRecord y cap table index e).tables d.table i).isEnabled = true)
    (hleaf : ((S.setRecord y cap table index e).tables d.table i).isTable = false) :
    ((S.setRecord y cap table index e).tables d.table i).getNextPage ≠ d'.table := by
  obtain ⟨c, hc, htable, -, hsame⟩ := hw.before hs
  by_cases hnew : d.table = table ∧ i = index
  · rw [setRecord_tables, if_pos hnew] at henabled hleaf ⊢
    exact hw.leaf henabled hleaf s' d' hs'
  · rw [setRecord_other hnew, htable] at henabled hleaf ⊢
    rw [(same_of_enabled hsame hi henabled).entryAddr] at hva
    exact hr.leaf hc hs' hi hva henabled hleaf

theorem page_kept (hr : S.Recorded)
    (hs : (S.setRecord y cap table index e).cap s = .virtPage v) (hv : v.mapped = true) :
    ∃ s' c, (S.setRecord y cap table index e).cap s' = .pageTable c ∧
      (S.setRecord y cap table index e).Fits c v := by
  rw [setRecord_cap] at hs
  split at hs
  · obtain ⟨hparent, hindex, hi, hspace, huser, hnext, x, p, hx, hp, hlevel, haddress⟩ := hw.page v hs hv
    have hxy : x ≠ y := by
      rintro rfl
      obtain ⟨d, hd⟩ := hw.kind p hx
      rw [hs] at hd
      exact absurd hd nofun
    have hentry : (S.setRecord y cap table index e).tables p.table v.index = e := by
      rw [setRecord_tables, if_pos ⟨hp, hindex⟩]
    refine ⟨x, p, by rw [setRecord_cap, if_neg hxy, hx], ⟨?_, ?_, hlevel, ?_, hspace, ?_, ?_⟩⟩
    · rw [hparent, hp]
    · rwa [hindex]
    · rw [haddress, hindex]
    · rw [hentry, huser]
    · rw [hentry, hnext]
  · rename_i hsy
    obtain ⟨s', c, hc, hfits⟩ := hr.page hs hv
    obtain ⟨d, hd, -, hsame⟩ := hw.after hc
    have hsame := same_of_enabled hsame hfits.index (Pte.isEnabled_of_isUser hfits.user)
    have hentry : (S.setRecord y cap table index e).tables d.table v.index
        = S.tables c.table v.index := by
      rw [hsame.table]
      exact setRecord_other (hw.others s v c hsy hs hv hfits)
    refine ⟨s', d, hd, ⟨?_, hfits.index, ?_, ?_, hfits.space, ?_, ?_⟩⟩
    · rw [hfits.parent, hsame.table]
    · rw [hfits.level, hsame.level]
    · rw [hfits.address, hsame.entryAddr]
    · rw [hentry, hfits.user]
    · rw [hentry, hfits.next]

theorem isRoot_kept (hroot : S.IsRoot R) : (S.setRecord y cap table index e).IsRoot R := by
  have hbelow := fun d hd => hw.below d hd R hroot
  obtain ⟨⟨s, c, hs, htable, hrecord⟩, hno⟩ := hroot
  have hsy : s ≠ y := by
    rintro rfl
    exact hbelow c hs htable
  refine ⟨⟨s, c, by rw [setRecord_cap, if_neg hsy, hs], htable, hrecord⟩, fun s' d i hd hi ht => ?_⟩
  obtain ⟨c', hc', htable', -, -⟩ := hw.before hd
  rw [htable'] at ht ⊢
  rcases hw.entry_cases hi hc' ht with ⟨-, -, d', hd', hnext⟩ | ⟨hold, hsame, -⟩
  · rw [hnext]
    exact hbelow d' hd'
  · rw [hsame]
    exact hno s' c' i hc' hi hold

/-- Such a store keeps the order. -/
theorem orderly {roots : TablePtr → Prop} (h : S.Orderly roots) :
    (S.setRecord y cap table index e).Orderly roots := by
  refine ⟨h.laid.setRecord hw.frame, ⟨?_, ?_, ?_, ?_⟩, fun hR => hw.isRoot_kept (h.root hR)⟩
  · intro s d i hs hi ht
    exact hw.child_kept h.laid h.recorded hs hi ht
  · intro s s' d d' i i' hs hs' hi hi' ht ht' heq
    obtain ⟨c, hc, htable, -, -⟩ := hw.before hs
    obtain ⟨c', hc', htable', -, -⟩ := hw.before hs'
    rw [htable] at ht heq
    rw [htable'] at ht' heq
    exact hw.single_kept h.laid h.recorded hc hc' hi hi' ht ht' heq
  · intro s s' d d' i hs hs' hi hva henabled hleaf
    obtain ⟨c', hc', htable', -, -⟩ := hw.before hs'
    rw [htable']
    exact hw.leaf_kept h.recorded hs hc' hi hva henabled hleaf
  · intro s v hs hv
    exact hw.page_kept h.recorded hs hv

end Writes

/-! ### The operations -/

namespace Orderly

variable {roots : TablePtr → Prop} {r w z : Bool} {v' : VirtPageCap}

theorem mapped_of_next (h : S.Orderly roots) (hx : S.cap x = .pageTable p)
    (hy : S.cap y = .pageTable c) (hi : i < NUM_PAGE_TABLE_ENTRY)
    (ht : (S.tables p.table i).isTable = true)
    (hnext : (S.tables p.table i).getNextPage = c.table) : c.mapped = true := by
  obtain ⟨s', d, hd, hcont⟩ := h.recorded.child hx hi ht
  have hs'y : s' = y := h.laid.table_inj hd hy (hcont.next.trans hnext)
  rw [hs'y, hy] at hd
  rw [Capability.pageTable.inj hd]
  exact hcont.mapped

/-- A table is mapped. If it has entries, it is put where its record says. -/
theorem mapTable (h : S.Orderly roots) (hx : S.cap x = .pageTable p) (hy : S.cap y = .pageTable c)
    (hinner : p.level ≠ 0) (hunmapped : c.mapped = false) (hxy : x ≠ y)
    (hstay : (∀ j, j < NUM_PAGE_TABLE_ENTRY → (S.tables c.table j).isEnabled = false) ∨
      (c.level = p.level - 1 ∧
        c.virtAddrBase = entryAddr p p.level index % CONFIG_MAX_VIRTUAL_ADDRESS))
    (hfree : (S.tables p.table index).isEnabled = false) :
    (S.setRecord y (.pageTable { c with
        mapped := true
        level := p.level - 1
        virtAddrBase := entryAddr p p.level index % CONFIG_MAX_VIRTUAL_ADDRESS
        parentTable := some p.table })
      p.table index ((S.tables p.table index).fill .table c.table)).Orderly roots := by
  have hpage := h.laid.page (show (S.cap y).frame = some c.table by rw [hy]; rfl)
  have hnext : ((S.tables p.table index).fill .table c.table).getNextPage = c.table :=
    getNextPage_fill hpage.1 hpage.2
  refine Writes.orderly ⟨?_, ?_, ?_, ?_, ?_, ?_, ?_, ?_, ?_, ?_⟩ h
  · rw [hy]
    rfl
  · exact fun _ _ => ⟨_, rfl⟩
  · intro d hd
    obtain rfl := Capability.pageTable.inj hd
    refine ⟨c, hy, ?_⟩
    rcases hstay with hempty | ⟨hlevel, hbase⟩
    · exact .inr hempty
    · exact .inl ⟨rfl, hlevel.symm, hbase.symm⟩
  · intro d hd s c' i hs hlt ht _ heq
    rw [hy] at hd
    obtain rfl := Capability.pageTable.inj hd
    rw [h.mapped_of_next hs hy hlt ht heq] at hunmapped
    exact absurd hunmapped (by decide)
  · rintro d hd R ⟨⟨s, c', hs, htable, hmapped, -⟩, -⟩ rfl
    have hsy : s = y := h.laid.table_inj hs hd htable
    rw [hsy, hy] at hs
    obtain rfl := Capability.pageTable.inj hs
    rw [hmapped] at hunmapped
    exact absurd hunmapped (by decide)
  · exact fun _ => ⟨c, hy, hnext⟩
  · exact fun _ => ⟨x, p, _, hxy, hx, rfl, rfl, rfl, hinner, rfl, rfl⟩
  · exact fun _ hleaf => absurd hleaf (by rw [fill_table_isTable]; decide)
  · rintro s v c' - hs hv hfits ⟨htable, hindex⟩
    have huser := Pte.isEnabled_of_isUser hfits.user
    rw [htable, hindex, hfree] at huser
    exact absurd huser (by decide)
  · exact fun v hv => absurd hv nofun

/-- The entry that leads to a table is cleared. -/
theorem unmapTable (h : S.Orderly roots) (hx : S.cap x = .pageTable p)
    (hy : S.cap y = .pageTable c) (hi : index < NUM_PAGE_TABLE_ENTRY)
    (hva : entryAddr p p.level index < CONFIG_KERNEL_SPACE_BASE)
    (henabled : (S.tables p.table index).isEnabled = true)
    (hsame : (S.tables p.table index).getNextPage = c.table) :
    (S.setRecord y (.pageTable { c with mapped := false, parentTable := none }) p.table index
      (S.tables p.table index).disable).Orderly roots := by
  have htable : (S.tables p.table index).isTable = true := by
    by_contra hleaf
    exact h.recorded.leaf hx hy hi hva henabled (Bool.eq_false_iff.mpr hleaf) hsame
  have hoff : ¬ (S.tables p.table index).disable.isTable = true :=
    Pte.not_isTable_of_disabled rfl
  refine Writes.orderly ⟨?_, ?_, ?_, ?_, ?_, ?_, ?_, ?_, ?_, ?_⟩ h
  · rw [hy]
    rfl
  · exact fun _ _ => ⟨_, rfl⟩
  · intro d hd
    obtain rfl := Capability.pageTable.inj hd
    exact ⟨c, hy, .inl ⟨rfl, rfl, rfl⟩⟩
  · intro d hd s c' i hs hlt ht hne heq
    rw [hy] at hd
    obtain rfl := Capability.pageTable.inj hd
    obtain ⟨hxs, hindex⟩ := h.recorded.single hs hx hlt hi ht htable (heq.trans hsame.symm)
    rw [hxs, hx] at hs
    obtain rfl := Capability.pageTable.inj hs
    exact hne ⟨rfl, hindex⟩
  · rintro d hd R ⟨-, hno⟩ rfl
    rw [hy] at hd
    obtain rfl := Capability.pageTable.inj hd
    exact hno x p index hx hi htable hsame
  · exact fun ht => absurd ht hoff
  · exact fun ht => absurd ht hoff
  · exact fun ht => absurd ht (by rw [disable_isEnabled]; decide)
  · rintro s v c' - hs hv hfits ⟨htable', hindex⟩
    have huser := Pte.isTable_of_isUser hfits.user
    rw [htable', hindex, htable] at huser
    exact absurd huser (by decide)
  · exact fun v hv => absurd hv nofun

/-- An entry that leads to a page is filled. -/
theorem mapPage (h : S.Orderly roots) (hx : S.cap x = .pageTable p) (hy : S.cap y = .virtPage v)
    (hi : index < NUM_PAGE_TABLE_ENTRY)
    (hva : entryAddr p v.level index < CONFIG_KERNEL_SPACE_BASE) (hlevel : v.level = p.level)
    (hfree : (S.tables p.table index).isEnabled = false) :
    (S.setRecord y (.virtPage (v.mapTo r w z index (entryAddr p v.level index) p.table)) p.table
      index ((S.tables p.table index).fill (.userPage r w z) v.physAddr)).Orderly roots := by
  have hpage := h.laid.page (show (S.cap y).frame = some v.physAddr by rw [hy]; rfl)
  have hnext : ((S.tables p.table index).fill (.userPage r w z) v.physAddr).getNextPage
      = v.physAddr := getNextPage_fill hpage.1 hpage.2
  have hleaf : ¬ ((S.tables p.table index).fill (.userPage r w z) v.physAddr).isTable = true := by
    rw [Pte.isTable_of_isUser fill_userPage_isUser]
    decide
  refine Writes.orderly ⟨?_, ?_, ?_, ?_, ?_, ?_, ?_, ?_, ?_, ?_⟩ h
  · rw [hy]
    rfl
  · exact fun c hc => absurd (hy.symm.trans hc) nofun
  · exact fun d hd => absurd hd nofun
  · exact fun d hd => absurd (hy.symm.trans hd) nofun
  · exact fun d hd => absurd (hy.symm.trans hd) nofun
  · exact fun ht => absurd ht hleaf
  · exact fun ht => absurd ht hleaf
  · intro _ _ s d hs
    rw [hnext]
    exact (h.laid.apart hs hy).symm
  · rintro s v' c' - hs hv hfits ⟨htable, hindex⟩
    have huser := Pte.isEnabled_of_isUser hfits.user
    rw [htable, hindex, hfree] at huser
    exact absurd huser (by decide)
  · intro v' hv' _
    obtain rfl := Capability.virtPage.inj hv'
    exact ⟨rfl, rfl, hi, hva, fill_userPage_isUser, hnext, x, p, hx, rfl, hlevel,
      congrArg (entryAddr p · index) hlevel⟩

/-- The entry that leads to a page is cleared. -/
theorem unmapPage (h : S.Orderly roots) (hy : S.cap y = .virtPage v)
    (hsame : (S.tables p.table index).getNextPage = v.physAddr) :
    (S.setRecord y (.virtPage { v with mapped := false, parentTable := none }) p.table index
      (S.tables p.table index).disable).Orderly roots := by
  have hoff : ¬ (S.tables p.table index).disable.isTable = true :=
    Pte.not_isTable_of_disabled rfl
  refine Writes.orderly ⟨?_, ?_, ?_, ?_, ?_, ?_, ?_, ?_, ?_, ?_⟩ h
  · rw [hy]
    rfl
  · exact fun c hc => absurd (hy.symm.trans hc) nofun
  · exact fun d hd => absurd hd nofun
  · exact fun d hd => absurd (hy.symm.trans hd) nofun
  · exact fun d hd => absurd (hy.symm.trans hd) nofun
  · exact fun ht => absurd ht hoff
  · exact fun ht => absurd ht hoff
  · exact fun ht => absurd ht (by rw [disable_isEnabled]; decide)
  · -- Another page has another entry, since it leads to that page.
    rintro s v' c' hsy hs hv hfits ⟨htable, hindex⟩
    have hnext := hfits.next
    rw [htable, hindex, hsame] at hnext
    exact hsy (h.laid.page_inj hs hy hnext.symm)
  · intro v' hv' hmapped
    obtain rfl := Capability.virtPage.inj hv'
    exact absurd hmapped nofun

end Orderly

end CapStore

end Caprese
