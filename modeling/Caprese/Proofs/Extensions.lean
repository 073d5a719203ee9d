import Caprese.Proofs.Descriptors

/-!
# `Caprese.Proofs.Extensions`: room for capability spaces

`insert_cap_space` lets a task go on whose spaces fill all of its extensions, since the quotient
of their number and `NUM_PAGE_TABLE_ENTRY` is then the number of the extensions and not above it.
The entry that it needs is not there, and the assertion on it fails. And `extend_cap_space` takes
a table as it is, so that the entry for the next space may be in use. The call is clean in all other
states (`insert_clean_iff`).
-/

set_option autoImplicit false

namespace Caprese

open Lib Prog

variable {cfg : Config} {env : Env} {k k' : Kernel} {t : TaskPtr} {inner table : TablePtr}
  {exts : List TablePtr} {spaces : List SpacePtr} {space : SpacePtr} {s : SlotPtr}
  {E : Stop → Kernel → Prop}

/-- Anything that leaves the tables and the spaces of the task alone. Other tables may change. -/
structure LeavesSpaces (t : TaskPtr) (inner : TablePtr) (exts : List TablePtr)
    (spaces : List SpacePtr) (k k' : Kernel) : Prop where
  tables : ∀ table ∈ (k.tasks t).rootPageTable :: inner :: exts,
    k'.pageTables table = k.pageTables table
  spaces : ∀ space ∈ spaces, k'.capSpaces space = k.capSpaces space
  root : (k'.tasks t).rootPageTable = (k.tasks t).rootPageTable
  count : (k'.tasks t).capCount = (k.tasks t).capCount
  alive : ¬ isDead (k'.tasks t)

/-- The spaces of the task after any number of calls of `extend_cap_space` and
`insert_cap_space` since `init_task`, with tables and spaces that are new to it. The tables may hold
anything. -/
inductive Supplied (cfg : Config) (t : TaskPtr) (inner : TablePtr) :
    Kernel → List TablePtr → List SpacePtr → Prop
  | init {k k' : Kernel} {root table0 : TablePtr} {space : SpacePtr}
      (tables : [root, inner, table0].Nodup) (page : IsPage inner) (page0 : IsPage table0)
      (pageSpace : IsPage space)
      (run : initTask t space root table0 inner (.debug cfg) k = .ok () k') :
      Supplied cfg t inner k' [table0] [space]
  | extend {k k' : Kernel} {exts : List TablePtr} {spaces : List SpacePtr} {table : TablePtr}
      {answer : Option Nat} (supplied : Supplied cfg t inner k exts spaces) (page : IsPage table)
      (new : table ∉ (k.tasks t).rootPageTable :: inner :: exts)
      (run : extendCapSpace t table (.debug cfg) k = .ok answer k') :
      Supplied cfg t inner k' (if answer.isSome then exts ++ [table] else exts) spaces
  | insert {k k' : Kernel} {exts : List TablePtr} {spaces : List SpacePtr} {space : SpacePtr}
      {answer : Bool} (supplied : Supplied cfg t inner k exts spaces) (page : IsPage space)
      (new : space ∉ spaces) (run : insertCapSpace t space (.debug cfg) k = .ok answer k') :
      Supplied cfg t inner k' exts (if answer then spaces ++ [space] else spaces)
  | other {k k' : Kernel} {exts : List TablePtr} {spaces : List SpacePtr}
      (supplied : Supplied cfg t inner k exts spaces)
      (leaves : LeavesSpaces t inner exts spaces k k') : Supplied cfg t inner k' exts spaces

/-! ### The guard -/

/-- One level of the descent, through an entry that is enabled. -/
theorem wp_walkEnabled_cons {va level : Nat} {levels : List Nat} {next : TablePtr}
    {Q : TablePtr → Kernel → Prop} (hva : va < CONFIG_MAX_VIRTUAL_ADDRESS)
    (hlevel : level ≤ MAX_PAGE_TABLE_LEVEL) (hleads : Leads k table (getPageTableIndex va level) next)
    (hQ : wp (walkEnabled va levels next) env Q E k) :
    wp (walkEnabled va (level :: levels) table) env Q E k := by
  unfold walkEnabled
  rw [wp_bind]
  refine wp_pageTableWalk_inside hva hlevel ?_
  rw [wp_bind, wp_get, wp_bind]
  refine wp_kassert_holds hleads.1 ?_
  rw [wp_bind, wp_get, hleads.2]
  exact hQ

/-- The descent ends at an entry that is disabled. -/
theorem wp_walkEnabled_stuck {va level : Nat} {levels : List Nat} {Q : TablePtr → Kernel → Prop}
    (hentry : (k.pte table (getPageTableIndex va level)).isEnabled = false) :
    wp (walkEnabled va (level :: levels) table) (.debug cfg) Q (fun _ _ => True) k := by
  unfold walkEnabled
  rw [wp_bind]
  refine wp_pageTableWalk_any ?_
  rw [wp_bind, wp_get, wp_bind, wp_kassert, if_neg]
  · trivial
  · rw [hentry]
    decide

theorem insertCapSpace_guard (h : SpaceCounts k t exts spaces) :
    ¬ (k.tasks t).capCount.numCapSpace / NUM_PAGE_TABLE_ENTRY > (k.tasks t).capCount.numExtension := by
  have hroom := h.room
  rw [h.count]
  change spaces.length ≤ 512 * exts.length at hroom
  show ¬ spaces.length / 512 > exts.length
  omega

/-- The extensions are full, and the guard lets the call pass. -/
theorem wp_insertCapSpace_full (h : SpaceTables k t inner exts spaces)
    (hc : SpaceCounts k t exts spaces) (hv : Vacant k inner exts.length)
    (hfull : spaces.length = NUM_PAGE_TABLE_ENTRY * exts.length) :
    wp (insertCapSpace t space) (.debug cfg) (fun _ _ => False) (fun _ _ => True) k := by
  have hguard := insertCapSpace_guard hc
  have hlt := hc.length_lt
  unfold insertCapSpace
  rw [wp_bind, wp_get]
  dsimp only
  rw [wp_ite, if_neg hguard, hc.count, wp_bind, wp_get, wp_bind]
  refine wp_walkEnabled_cons (capSpaceAddr_lt hlt) (Nat.le_refl _) (?_ : Leads k _ _ inner) ?_
  · have hgiga := capSpaceAddr_giga hlt
    unfold capSpaceAddr at hgiga
    rw [hgiga]
    exact h.top
  · refine wp_walkEnabled_stuck (hv _ ?_)
    have hmega := capSpaceAddr_mega hlt
    unfold capSpaceAddr at hmega
    dsimp only
    rw [hmega, hfull]
    exact Nat.le_of_eq (Nat.mul_div_cancel_left _ (by decide)).symm

/-- The descent to the table of the next space, where there is room. -/
theorem wp_walkEnabled_next {Q : TablePtr → Kernel → Prop} (h : SpaceTables k t inner exts spaces)
    (hc : SpaceCounts k t exts spaces)
    (hext : exts[spaces.length / NUM_PAGE_TABLE_ENTRY]? = some table) (hQ : Q table k) :
    wp (walkEnabled (capSpaceAddr spaces.length) [MAX_PAGE_TABLE_LEVEL, MEGA_PAGE_TABLE_LEVEL]
      (k.tasks t).rootPageTable) env Q E k := by
  have hva := capSpaceAddr_lt hc.length_lt
  refine wp_walkEnabled_cons hva (Nat.le_refl _) (?_ : Leads k _ _ inner) ?_
  · rw [show getPageTableIndex (capSpaceAddr spaces.length) MAX_PAGE_TABLE_LEVEL = 192 from
      capSpaceAddr_giga hc.length_lt]
    exact h.top
  · refine wp_walkEnabled_cons hva (by decide) (?_ : Leads k _ _ table) hQ
    rw [capSpaceAddr_mega hc.length_lt]
    exact h.mid _ table hext

/-- The entry for the next space is in use. -/
theorem wp_insertCapSpace_used (h : SpaceTables k t inner exts spaces)
    (hc : SpaceCounts k t exts spaces)
    (hext : exts[spaces.length / NUM_PAGE_TABLE_ENTRY]? = some table)
    (hused : (k.pte table (spaces.length % NUM_PAGE_TABLE_ENTRY)).isEnabled = true) :
    wp (insertCapSpace t space) (.debug cfg) (fun _ _ => False) (fun _ _ => True) k := by
  have hguard := insertCapSpace_guard hc
  have hkilo := @capSpaceAddr_kilo spaces.length
  unfold capSpaceAddr at hkilo
  unfold insertCapSpace
  rw [wp_bind, wp_get]
  dsimp only
  rw [wp_ite, if_neg hguard, hc.count, wp_bind, wp_get, wp_bind]
  refine wp_walkEnabled_next h hc hext ?_
  rw [wp_bind]
  refine wp_pageTableWalk_any ?_
  dsimp only
  rw [hkilo, wp_bind, wp_get, wp_bind, wp_kassert, if_neg]
  · trivial
  · rw [Pte.isDisabled_iff, hused]
    decide

/-! ### Where there is room -/

/-- The slots of a space of the task are freed. -/
theorem wp_pushSlots_runs {slots : List SlotPtr} {Q : Unit → Kernel → Prop}
    (hslots : ∀ s ∈ slots, s.space = space) (hspace : (k.capSpaces space).task = some t)
    (hused : (k.tasks t).state ≠ .unused) (hQ : ∀ k', Q () k') :
    wp (forM (pushFreeSlots t) slots) (.debug cfg) Q E k := by
  refine wp_forM (fun _ rest k' => (∀ s ∈ rest, s.space = space) ∧
    (k'.capSpaces space).task = some t ∧ (k'.tasks t).state ≠ .unused) (fun _ k' _ => hQ k') ?_ slots
    [] k ⟨hslots, hspace, hused⟩
  rintro done s rest k' ⟨hrest, hspace', hused'⟩
  have hslot : k'.slotTask s = some t := by
    unfold Kernel.slotTask
    rw [hrest s List.mem_cons_self]
    exact hspace'
  rw [wp_pushFreeSlots hslot hused']
  refine ⟨fun s hs => hrest s (List.mem_cons_of_mem _ hs), hspace', ?_⟩
  rw [Kernel.freed_state]
  exact hused'

/-- There is room, and the entry for the next space is free. -/
theorem wp_insertCapSpace_runs (h : SpaceTables k t inner exts spaces)
    (hc : SpaceCounts k t exts spaces)
    (hext : exts[spaces.length / NUM_PAGE_TABLE_ENTRY]? = some table)
    (hfree : (k.pte table (spaces.length % NUM_PAGE_TABLE_ENTRY)).isEnabled = false) :
    wp (insertCapSpace t space) (.debug cfg) (fun r _ => r = true) E k := by
  have hguard := insertCapSpace_guard hc
  have hused : (k.tasks t).state ≠ .unused := fun heq => h.alive (Or.inl heq)
  have hva := capSpaceAddr_lt hc.length_lt
  have hkilo := @capSpaceAddr_kilo spaces.length
  unfold capSpaceAddr at hkilo hva
  unfold insertCapSpace
  rw [wp_bind, wp_get]
  dsimp only
  rw [wp_ite, if_neg hguard, hc.count, wp_bind, wp_get, wp_bind]
  refine wp_walkEnabled_next h hc hext ?_
  rw [wp_bind]
  refine wp_pageTableWalk_inside hva (by decide) ?_
  dsimp only
  rw [hkilo, wp_bind, wp_get, wp_bind]
  refine wp_kassert_holds ?_ ?_
  · rw [Pte.isDisabled_iff]
    exact hfree
  rw [wp_bind, wp_modify]
  have hrest : ∀ k₁ : Kernel, (k₁.capSpaces space).task = some t → (k₁.tasks t).state ≠ .unused →
      wp (do
        forM (pushFreeSlots t) (spaceSlots space spaces.length)
        modify fun k => k.setTask t { k.tasks t with
          capCount := { (k.tasks t).capCount with
            numCapSpace := ((k.tasks t).capCount.numCapSpace + 1) % MAX_NUM_CAP_SPACE } }
        return true) (.debug cfg) (fun r _ => r = true) E k₁ := by
    intro k₁ hspace₁ hused₁
    rw [wp_bind]
    exact wp_pushSlots_runs (fun s hs => (mem_spaceSlots.mp hs).1) hspace₁ hused₁ fun _ => rfl
  rw [wp_ite]
  split
  · rw [wp_bind, wp_modify, wp_bind, wp_modify]
    refine hrest _ ?_ hused
    exact congrArg MetaInfo.task (upd_same _ _ _)
  · rw [wp_bind, wp_modify]
    refine hrest _ ?_ hused
    exact congrArg MetaInfo.task (upd_same _ _ _)

/-! ### Runs -/

theorem SpaceTables.leaves (h : SpaceTables k t inner exts spaces)
    (hl : LeavesSpaces t inner exts spaces k k') : SpaceTables k' t inner exts spaces := by
  have hleads : ∀ {table index page}, table ∈ (k.tasks t).rootPageTable :: inner :: exts →
      Leads k table index page → Leads k' table index page := by
    intro table index page hmem hleads
    unfold Leads Kernel.pte at hleads ⊢
    rw [hl.tables table hmem]
    exact hleads
  have hext : ∀ {j table}, exts[j]? = some table →
      table ∈ (k.tasks t).rootPageTable :: inner :: exts := fun hj =>
    List.mem_cons_of_mem _ (List.mem_cons_of_mem _ (List.mem_of_getElem? hj))
  refine ⟨hl.alive, hl.root ▸ h.apart, ?_, fun j table hj => ?_, fun n table space hn hs => ?_,
    fun n space hn => ?_, h.nodup⟩
  · rw [hl.root]
    exact hleads List.mem_cons_self h.top
  · exact hleads (List.mem_cons_of_mem _ List.mem_cons_self) (h.mid j table hj)
  · exact hleads (hext hn) (h.leaf n table space hn hs)
  · rw [hl.spaces space (List.mem_of_getElem? hn)]
    exact h.info n space hn

theorem Vacant.leaves (h : Vacant k inner exts.length) (hl : LeavesSpaces t inner exts spaces k k') :
    Vacant k' inner exts.length := by
  intro j hj
  unfold Kernel.pte
  rw [hl.tables inner (List.mem_cons_of_mem _ List.mem_cons_self)]
  exact h j hj

theorem SpaceCounts.leaves (h : SpaceCounts k t exts spaces)
    (hl : LeavesSpaces t inner exts spaces k k') : SpaceCounts k' t exts spaces :=
  ⟨hl.count.trans h.count, h.few, h.room⟩

/-- What a task's tables are like in every run. -/
theorem Supplied.tables (h : Supplied cfg t inner k exts spaces) :
    SpaceTables k t inner exts spaces ∧ SpaceCounts k t exts spaces ∧ Vacant k inner exts.length := by
  induction h with
  | @init k k' root table0 space tables page page0 pageSpace run =>
    exact wp_ok (Q := fun _ k' => SpaceTables k' t inner [table0] [space] ∧
      SpaceCounts k' t [table0] [space] ∧ Vacant k' inner 1)
      (wp_initTask_tables page page0 pageSpace tables fun _ h hc hv => ⟨h, hc, hv⟩) run
  | @extend k k' exts spaces table answer _ page new run ih =>
    obtain ⟨htables, hcounts, hvacant⟩ := ih
    exact wp_ok (Q := fun answer k' =>
      SpaceTables k' t inner (if answer.isSome then exts ++ [table] else exts) spaces ∧
      SpaceCounts k' t (if answer.isSome then exts ++ [table] else exts) spaces ∧
      Vacant k' inner (if answer.isSome then exts ++ [table] else exts).length)
      (wp_extendCapSpace_tables htables hcounts page new (fun _ h hc hv => ⟨h, hc, hv hvacant⟩)
        fun _ _ h hc hv => ⟨h, hc, hv hvacant⟩) run
  | @insert k k' exts spaces space answer _ page new run ih =>
    obtain ⟨htables, hcounts, hvacant⟩ := ih
    rcases Nat.lt_or_ge spaces.length (NUM_PAGE_TABLE_ENTRY * exts.length) with hroom | hfull
    · exact wp_ok (Q := fun answer k' =>
        SpaceTables k' t inner exts (if answer then spaces ++ [space] else spaces) ∧
        SpaceCounts k' t exts (if answer then spaces ++ [space] else spaces) ∧
        Vacant k' inner exts.length)
        (wp_insertCapSpace_tables htables hcounts page new hroom fun _ h hc hv =>
          ⟨h, hc, hv hvacant⟩) run
    · exact absurd (wp_ok (wp_insertCapSpace_full htables hcounts hvacant
        (Nat.le_antisymm hcounts.room hfull)) run) id
  | other _ leaves ih =>
    exact ⟨ih.1.leaves leaves, ih.2.1.leaves leaves, ih.2.2.leaves leaves⟩

/-! ### The claim -/

/-- `insert_cap_space` succeeds where there is room, and fails without a trace elsewhere. -/
def InsertsCleanly (cfg : Config) (k : Kernel) (t : TaskPtr) (space : SpacePtr) : Prop :=
  let count := (k.tasks t).capCount
  if count.numCapSpace < NUM_PAGE_TABLE_ENTRY * count.numExtension then
    ∃ k', insertCapSpace t space (.debug cfg) k = .ok true k'
  else
    ∃ k', insertCapSpace t space (.debug cfg) k = .ok false k' ∧ k'.tasks = k.tasks ∧
      k'.slots = k.slots ∧ k'.pageTables = k.pageTables

/-- The call is clean unless the spaces fill the extensions, or the entry for the next one is in
use. -/
theorem insert_clean_iff (h : Supplied cfg t inner k exts spaces) : InsertsCleanly cfg k t space ↔
    spaces.length ≠ NUM_PAGE_TABLE_ENTRY * exts.length ∧
      ∀ table, exts[spaces.length / NUM_PAGE_TABLE_ENTRY]? = some table →
        (k.pte table (spaces.length % NUM_PAGE_TABLE_ENTRY)).isEnabled = false := by
  obtain ⟨htables, hcounts, hvacant⟩ := h.tables
  have hroom := hcounts.room
  unfold InsertsCleanly
  dsimp only
  rw [hcounts.count]
  dsimp only
  split
  · rename_i hlt
    have hindex : spaces.length / NUM_PAGE_TABLE_ENTRY < exts.length := by
      change spaces.length < 512 * exts.length at hlt
      show spaces.length / 512 < exts.length
      omega
    have hext := List.getElem?_eq_getElem hindex
    constructor
    · rintro ⟨k', hrun⟩
      refine ⟨Nat.ne_of_lt hlt, fun table htable => ?_⟩
      by_contra hused
      exact absurd (wp_ok (wp_insertCapSpace_used htables hcounts htable
        (Bool.of_not_eq_false hused)) hrun) id
    · rintro ⟨-, hfree⟩
      obtain ⟨r, k', hrun, rfl⟩ := wp_returns
        (wp_insertCapSpace_runs htables hcounts hext (hfree _ hext))
      exact ⟨k', hrun⟩
  · rename_i hfull
    have heq : spaces.length = NUM_PAGE_TABLE_ENTRY * exts.length :=
      Nat.le_antisymm hroom (Nat.not_lt.mp hfull)
    constructor
    · rintro ⟨k', hrun, -⟩
      exact absurd (wp_ok (wp_insertCapSpace_full htables hcounts hvacant heq) hrun) id
    · rintro ⟨hne, -⟩
      exact absurd heq hne

/-- Spaces next to each other. -/
def manySpaces (n : Nat) : List SpacePtr := (List.range n).map fun i => 0x100000 + PAGE_SIZE * i

theorem manySpaces_succ (n : Nat) :
    manySpaces (n + 1) = manySpaces n ++ [0x100000 + PAGE_SIZE * n] := by
  unfold manySpaces
  rw [List.range_succ, List.map_append]
  rfl

theorem manySpaces_new (n : Nat) : 0x100000 + PAGE_SIZE * n ∉ manySpaces n := by
  intro hmem
  obtain ⟨i, hi, heq⟩ := List.mem_map.mp hmem
  have hlt := List.mem_range.mp hi
  have hsame : i = n := Nat.eq_of_mul_eq_mul_left (by decide) (Nat.add_left_cancel heq)
  exact absurd hsame (Nat.ne_of_lt hlt)

/-- A task with one extension, and one space in it. -/
theorem supplied_start : ∃ k,
    (k.pte 0x4000 1).isEnabled = false ∧
      Supplied spacesEnv.config 0x1000 0x5000 k [0x4000] (manySpaces 1) := by
  have hrun : (initTask 0x1000 0x100000 0x3000 0x4000 0x5000 spacesEnv Kernel.powerOn).returns
      (fun _ k => !(k.pte 0x4000 1).isEnabled) = true := by decide +kernel
  obtain ⟨answer, k, h, hfree⟩ := Outcome.returns_iff.mp hrun
  exact ⟨k, (Bool.not_eq_true' _).mp hfree, .init (by decide) (by decide) (by decide) (by decide) h⟩

/-- The second space of the task. -/
theorem insert_clean_iff_second : ∃ k, Supplied spacesEnv.config 0x1000 0x5000 k [0x4000] (manySpaces 1) ∧
    InsertsCleanly spacesEnv.config k 0x1000 0x7000 := by
  obtain ⟨k, hfree, hsupplied⟩ := supplied_start
  refine ⟨k, hsupplied, (insert_clean_iff hsupplied).mpr ⟨by decide, fun table htable => ?_⟩⟩
  obtain rfl := Option.some.inj htable
  exact hfree

/-- Some call does not succeed before the extension is full, or the one behind fails an
assertion. -/
theorem insert_full_asserts : ¬ ∀ (cfg : Config) (t : TaskPtr) (inner : TablePtr) (k : Kernel)
    (exts : List TablePtr) (spaces : List SpacePtr) (space : SpacePtr),
    Supplied cfg t inner k exts spaces → IsPage space → space ∉ spaces →
    InsertsCleanly cfg k t space := by
  intro hclaim
  -- The calls succeed one by one, up to the last entry of the table.
  have hfill : ∀ n, n < NUM_PAGE_TABLE_ENTRY →
      ∃ k, Supplied spacesEnv.config 0x1000 0x5000 k [0x4000] (manySpaces (n + 1)) := by
    intro n hn
    induction n with
    | zero =>
      obtain ⟨k, -, hsupplied⟩ := supplied_start
      exact ⟨k, hsupplied⟩
    | succ n ih =>
      obtain ⟨k, hsupplied⟩ := ih (by omega)
      have hpage : IsPage (0x100000 + PAGE_SIZE * (n + 1)) := by
        change n + 1 < 512 at hn
        refine ⟨⟨0x100 + (n + 1), ?_⟩, ?_⟩
        · show 0x100000 + 4096 * (n + 1) = 4096 * (0x100 + (n + 1))
          omega
        · show 0x100000 + 4096 * (n + 1) < 2 ^ 36
          omega
      have hclean := hclaim _ _ _ _ _ _ _ hsupplied hpage (manySpaces_new (n + 1))
      have hcount := hsupplied.tables.2.1.count
      have hlength : (manySpaces (n + 1)).length = n + 1 := by simp [manySpaces]
      unfold InsertsCleanly at hclean
      dsimp only at hclean
      rw [hcount, hlength, if_pos (by exact hn)] at hclean
      obtain ⟨k', hrun⟩ := hclean
      refine ⟨k', ?_⟩
      rw [manySpaces_succ]
      exact hsupplied.insert hpage (manySpaces_new (n + 1)) hrun
  obtain ⟨k, hsupplied⟩ := hfill 511 (by decide)
  have hclean := hclaim _ _ _ _ _ _ 0x900000 hsupplied (by decide) (by decide +kernel)
  exact ((insert_clean_iff hsupplied).mp hclean).1 (by simp [manySpaces])

end Caprese
