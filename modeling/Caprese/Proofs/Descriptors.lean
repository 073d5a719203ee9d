import Caprese.Kernel.Boot
import Caprese.Store.SpaceTables
import Mathlib.Data.Set.Function

/-!
# `Caprese.Proofs.Descriptors`: descriptors and the slots that they stand for

However often the spaces of a task were extended and new spaces inserted, and whatever happened to
its slots in between, `get_cap_slot_index` numbers the slots of its spaces without gaps, and
`lookup_cap` finds them again (`descriptors_name_slots`).
-/

set_option autoImplicit false

namespace Caprese

open Lib Prog

variable {env : Env} {k k' : Kernel} {t : TaskPtr} {inner : TablePtr} {exts : List TablePtr}
  {spaces : List SpacePtr} {s : SlotPtr}

/-- The spaces of the task after any number of calls of `extend_cap_space` and
`insert_cap_space` since `init_task`, with tables and spaces that are new to it, and with no space
inserted where the extensions have no room for it. Between the calls anything may happen that
leaves the tables and the spaces alone. -/
inductive Grown (env : Env) (t : TaskPtr) (inner : TablePtr) :
    Kernel → List TablePtr → List SpacePtr → Prop
  | init {k k' : Kernel} {root table0 : TablePtr} {space : SpacePtr} (tables : [root, inner, table0].Nodup)
      (page : IsPage inner) (page0 : IsPage table0) (pageSpace : IsPage space)
      (run : initTask t space root table0 inner env k = .ok () k') : Grown env t inner k' [table0] [space]
  | extend {k k' : Kernel} {exts : List TablePtr} {spaces : List SpacePtr} {table : TablePtr}
      {answer : Option Nat} (grown : Grown env t inner k exts spaces) (page : IsPage table)
      (new : table ∉ (k.tasks t).rootPageTable :: inner :: exts)
      (run : extendCapSpace t table env k = .ok answer k') :
      Grown env t inner k' (if answer.isSome then exts ++ [table] else exts) spaces
  | insert {k k' : Kernel} {exts : List TablePtr} {spaces : List SpacePtr} {space : SpacePtr}
      {answer : Bool} (grown : Grown env t inner k exts spaces) (page : IsPage space)
      (new : space ∉ spaces) (room : spaces.length < NUM_PAGE_TABLE_ENTRY * exts.length)
      (run : insertCapSpace t space env k = .ok answer k') :
      Grown env t inner k' exts (if answer then spaces ++ [space] else spaces)
  | other {k k' : Kernel} {exts : List TablePtr} {spaces : List SpacePtr}
      (grown : Grown env t inner k exts spaces) (same : SameSpaces t k k') :
      Grown env t inner k' exts spaces

theorem Grown.tables (h : Grown env t inner k exts spaces) :
    SpaceTables k t inner exts spaces ∧ SpaceCounts k t exts spaces := by
  induction h with
  | @init k k' root table0 space tables page page0 pageSpace run =>
    exact wp_ok (Q := fun _ k' => SpaceTables k' t inner [table0] [space] ∧
      SpaceCounts k' t [table0] [space])
      (wp_initTask_tables page page0 pageSpace tables fun _ h hc _ => ⟨h, hc⟩) run
  | @extend k k' exts spaces table answer _ page new run ih =>
    exact wp_ok (Q := fun answer k' =>
      SpaceTables k' t inner (if answer.isSome then exts ++ [table] else exts) spaces ∧
      SpaceCounts k' t (if answer.isSome then exts ++ [table] else exts) spaces)
      (wp_extendCapSpace_tables ih.1 ih.2 page new (fun _ h hc _ => ⟨h, hc⟩) fun _ _ h hc _ => ⟨h, hc⟩) run
  | @insert k k' exts spaces space answer _ page new room run ih =>
    exact wp_ok (Q := fun answer k' =>
      SpaceTables k' t inner exts (if answer then spaces ++ [space] else spaces) ∧
      SpaceCounts k' t exts (if answer then spaces ++ [space] else spaces))
      (wp_insertCapSpace_tables ih.1 ih.2 page new room fun _ h hc _ => ⟨h, hc⟩) run
  | other _ same ih => exact ⟨ih.1.frame same, ih.2.frame same⟩

/-! ### From descriptors to slots -/

/-- The descriptor of a slot. -/
def Kernel.slotIndex (k : Kernel) (s : SlotPtr) : Nat :=
  NUM_SLOTS * (k.capSpaces s.space).spaceIndex + s.index

theorem getCapSlotIndex_eq : getCapSlotIndex s env k = .ok (k.slotIndex s) k := rfl

/-- The walk of `lookup_cap` to an address in the address space. -/
theorem wp_walkMapped_inside {va : Nat} {levels : List Nat} {table : TablePtr}
    {Q : Option PhysAddr → Kernel → Prop} {E : Stop → Kernel → Prop}
    (hva : va < CONFIG_MAX_VIRTUAL_ADDRESS) (hlevels : ∀ l ∈ levels, l ≤ MAX_PAGE_TABLE_LEVEL)
    (hQ : Q (k.findPage va levels table) k) : wp (walkMapped va levels table) env Q E k := by
  induction levels generalizing table with
  | nil => exact hQ
  | cons l levels ih =>
    unfold walkMapped
    rw [wp_bind]
    refine wp_pageTableWalk_inside hva (hlevels l List.mem_cons_self) ?_
    rw [wp_bind, wp_get, wp_ite]
    unfold Kernel.findPage at hQ
    split
    · rename_i hdisabled
      rw [if_pos hdisabled] at hQ
      exact hQ
    · rename_i henabled
      rw [if_neg henabled] at hQ
      exact ih (fun l' hl' => hlevels l' (List.mem_cons_of_mem l hl')) hQ

theorem Leads.not_isDisabled {table : TablePtr} {index : Nat} {page : PhysAddr}
    (h : Leads k table index page) : ¬ (k.pte table index).isDisabled = true := by
  rw [Pte.isDisabled_iff, h.1]
  decide

theorem SpaceTables.findPage (h : SpaceTables k t inner exts spaces) (hc : SpaceCounts k t exts spaces)
    {n : Nat} {space : SpacePtr} (hn : spaces[n]? = some space) :
    k.findPage (capSpaceAddr n) [MAX_PAGE_TABLE_LEVEL, MEGA_PAGE_TABLE_LEVEL, KILO_PAGE_TABLE_LEVEL]
      (k.tasks t).rootPageTable = some space := by
  have hlt := (List.getElem?_eq_some_iff.mp hn).1
  have hwide := Nat.lt_trans hlt hc.length_lt
  have hroom := hc.room
  change spaces.length ≤ 512 * exts.length at hroom
  obtain ⟨table, hext⟩ : ∃ table, exts[n / NUM_PAGE_TABLE_ENTRY]? = some table := by
    refine ⟨_, List.getElem?_eq_getElem ?_⟩
    show n / 512 < exts.length
    omega
  unfold Kernel.findPage Kernel.findPage Kernel.findPage Kernel.findPage
  rw [show getPageTableIndex (capSpaceAddr n) MAX_PAGE_TABLE_LEVEL = 192 from capSpaceAddr_giga hwide,
    if_neg h.top.not_isDisabled, h.top.2, capSpaceAddr_mega hwide,
    if_neg (h.mid _ _ hext).not_isDisabled, (h.mid _ _ hext).2, capSpaceAddr_kilo,
    if_neg (h.leaf _ _ _ hext hn).not_isDisabled, (h.leaf _ _ _ hext hn).2]

theorem NUM_SLOTS_pos : 0 < NUM_SLOTS := by decide

/-- `lookup_cap` of a descriptor in the range looks at the slot of its space. -/
theorem SpaceTables.wp_lookupCap (h : SpaceTables k t inner exts spaces)
    (hc : SpaceCounts k t exts spaces) {n i : Nat} {space : SpacePtr} (hn : spaces[n]? = some space)
    (hi : i < NUM_SLOTS) {Q : Option SlotPtr → Kernel → Prop} {E : Stop → Kernel → Prop}
    (hnull : k.cap ⟨space, i⟩ = .null → Q none { k with errno := .sOk })
    (hfound : k.cap ⟨space, i⟩ ≠ .null → Q (some ⟨space, i⟩) k) :
    wp (lookupCap t (NUM_SLOTS * n + i)) env Q E k := by
  have hlt := (List.getElem?_eq_some_iff.mp hn).1
  have hdiv : (NUM_SLOTS * n + i) / NUM_SLOTS = n := by
    rw [Nat.mul_add_div NUM_SLOTS_pos, Nat.div_eq_of_lt hi, Nat.add_zero]
  have hmod : (NUM_SLOTS * n + i) % NUM_SLOTS = i := by
    rw [Nat.mul_add_mod, Nat.mod_eq_of_lt hi]
  have hin : ¬ NUM_SLOTS * n + i ≥ spaces.length * NUM_SLOTS := by
    rw [Nat.not_le, ← Nat.div_lt_iff_lt_mul NUM_SLOTS_pos, hdiv]
    exact hlt
  have halive : ¬ ((k.tasks t).state = .unused ∨ (k.tasks t).state = .killed) := h.alive
  unfold lookupCap
  rw [wp_bind, wp_get]
  dsimp only
  rw [wp_ite, if_neg halive, wp_ite, hc.count, if_neg hin, wp_bind, hdiv, hmod]
  refine wp_walkMapped_inside (capSpaceAddr_lt (Nat.lt_trans hlt hc.length_lt)) (by decide) ?_
  have hpage := h.findPage hc hn
  unfold capSpaceAddr at hpage
  rw [hpage]
  dsimp only
  rw [wp_bind, wp_get, wp_ite]
  by_cases hcap : k.cap ⟨space, i⟩ = .null
  · rw [if_pos (by rw [hcap]; rfl)]
    exact hnull hcap
  · rw [if_neg (by cases hk : k.cap ⟨space, i⟩ <;> first | exact absurd hk hcap | simp [getCapType])]
    exact hfound hcap

/-! ### The claim -/

/-- The slots of the spaces. -/
def spacesSlots (spaces : List SpacePtr) : Set SlotPtr :=
  {s | s.space ∈ spaces ∧ s.index < NUM_SLOTS}

theorem SpaceTables.slotIndex (h : SpaceTables k t inner exts spaces) (hs : s ∈ spacesSlots spaces) :
    ∃ n, spaces[n]? = some s.space ∧ k.slotIndex s = NUM_SLOTS * n + s.index := by
  obtain ⟨n, hn⟩ := List.mem_iff_getElem?.mp hs.1
  refine ⟨n, hn, ?_⟩
  unfold Kernel.slotIndex
  rw [h.info n s.space hn]

/-- The descriptors below the number of slots and the slots are the same in number, one by one. -/
theorem SpaceTables.bijOn (h : SpaceTables k t inner exts spaces) (hc : SpaceCounts k t exts spaces) :
    Set.BijOn k.slotIndex (spacesSlots spaces)
      {desc | desc < (k.tasks t).capCount.numCapSpace * NUM_SLOTS} := by
  rw [hc.count]
  refine ⟨fun s hs => ?_, fun s hs s' hs' heq => ?_, fun desc hdesc => ?_⟩
  · obtain ⟨n, hn, hindex⟩ := h.slotIndex hs
    have hlt := (List.getElem?_eq_some_iff.mp hn).1
    show k.slotIndex s < spaces.length * NUM_SLOTS
    rw [hindex, ← Nat.div_lt_iff_lt_mul NUM_SLOTS_pos, Nat.mul_add_div NUM_SLOTS_pos,
      Nat.div_eq_of_lt hs.2, Nat.add_zero]
    exact hlt
  · obtain ⟨n, hn, hindex⟩ := h.slotIndex hs
    obtain ⟨n', hn', hindex'⟩ := h.slotIndex hs'
    rw [hindex, hindex'] at heq
    have hdiv := congrArg (· / NUM_SLOTS) heq
    have hmod := congrArg (· % NUM_SLOTS) heq
    rw [Nat.mul_add_div NUM_SLOTS_pos, Nat.mul_add_div NUM_SLOTS_pos, Nat.div_eq_of_lt hs.2,
      Nat.div_eq_of_lt hs'.2, Nat.add_zero, Nat.add_zero] at hdiv
    rw [Nat.mul_add_mod, Nat.mul_add_mod, Nat.mod_eq_of_lt hs.2, Nat.mod_eq_of_lt hs'.2] at hmod
    obtain ⟨space, i⟩ := s
    obtain ⟨space', i'⟩ := s'
    rw [hdiv, hn'] at hn
    exact congrArg₂ SlotPtr.mk (Option.some.inj hn).symm hmod
  · have hlt : desc / NUM_SLOTS < spaces.length := (Nat.div_lt_iff_lt_mul NUM_SLOTS_pos).mpr hdesc
    have hn := List.getElem?_eq_getElem hlt
    refine ⟨⟨spaces[desc / NUM_SLOTS], desc % NUM_SLOTS⟩, ⟨List.getElem_mem hlt,
      Nat.mod_lt _ NUM_SLOTS_pos⟩, ?_⟩
    unfold Kernel.slotIndex
    rw [h.info _ _ hn]
    exact Nat.div_add_mod desc NUM_SLOTS

/-- Descriptors number the slots of a task's spaces, and name those in use. -/
theorem descriptors_name_slots (h : Grown env t inner k exts spaces) :
    Set.BijOn k.slotIndex (spacesSlots spaces)
      {desc | desc < (k.tasks t).capCount.numCapSpace * NUM_SLOTS} ∧
    (∀ s ∈ spacesSlots spaces, getCapSlotIndex s env k = .ok (k.slotIndex s) k ∧
      (k.cap s ≠ .null → lookupCap t (k.slotIndex s) env k = .ok (some s) k) ∧
      (k.cap s = .null → ∃ k', lookupCap t (k.slotIndex s) env k = .ok none k')) ∧
    ∀ desc, (k.tasks t).capCount.numCapSpace * NUM_SLOTS ≤ desc →
      ∃ k', lookupCap t desc env k = .ok none k' := by
  obtain ⟨htables, hcounts⟩ := h.tables
  refine ⟨htables.bijOn hcounts, fun s hs => ⟨rfl, fun hcap => ?_, fun hcap => ?_⟩, fun desc hdesc => ?_⟩
  · obtain ⟨n, hn, hindex⟩ := htables.slotIndex hs
    have hrun : wp (lookupCap t (k.slotIndex s)) env (fun r k' => r = some s ∧ k' = k)
        (fun _ _ => False) k := by
      rw [hindex]
      exact htables.wp_lookupCap hcounts hn hs.2 (fun hnull => absurd hnull hcap) fun _ => ⟨rfl, rfl⟩
    obtain ⟨r, k', hr, rfl, rfl⟩ := wp_returns hrun
    exact hr
  · obtain ⟨n, hn, hindex⟩ := htables.slotIndex hs
    have hrun : wp (lookupCap t (k.slotIndex s)) env (fun r _ => r = none) (fun _ _ => False) k := by
      rw [hindex]
      exact htables.wp_lookupCap hcounts hn hs.2 (fun _ => rfl) fun hfound => absurd hcap hfound
    obtain ⟨r, k', hr, rfl⟩ := wp_returns hrun
    exact ⟨k', hr⟩
  · have halive : ¬ ((k.tasks t).state = .unused ∨ (k.tasks t).state = .killed) := htables.alive
    have hrun : wp (lookupCap t desc) env (fun r _ => r = none) (fun _ _ => False) k := by
      unfold lookupCap
      rw [wp_bind, wp_get, wp_ite, if_neg halive, wp_ite, if_pos hdesc]
      exact rfl
    obtain ⟨r, k', hr, rfl⟩ := wp_returns hrun
    exact ⟨k', hr⟩

/-- The build of the next run. -/
def spacesEnv : Env :=
  .debug ⟨0, 0, 0, fun _ => ⟨0, 0, 0, 0, 0, []⟩, fun _ => [], 0, 0⟩

/-- A task whose spaces were extended once, and got one more. -/
def extendedTask : K (TablePtr × Option Nat × Bool) := do
  initTask 0x1000 0x2000 0x3000 0x4000 0x5000
  let root := ((← get).tasks 0x1000).rootPageTable
  let va ← extendCapSpace 0x1000 0x6000
  return (root, va, ← insertCapSpace 0x1000 0x7000)

theorem extendedTask_runs : ∃ k, extendedTask spacesEnv Kernel.powerOn
    = .ok (0x3000, some (extensionAddr 1), true) k := by
  have hrun : (extendedTask spacesEnv Kernel.powerOn).returns
      (fun answers _ => decide (answers = (0x3000, some (extensionAddr 1), true))) = true := by
    decide +kernel
  obtain ⟨answers, k, h, hanswers⟩ := Outcome.returns_iff.mp hrun
  obtain rfl := of_decide_eq_true hanswers
  exact ⟨k, h⟩

/-- Its descriptors number the slots of both spaces. -/
theorem descriptors_name_slots_extended : ∃ k,
    (∃ root va, extendedTask spacesEnv Kernel.powerOn = .ok (root, va, true) k) ∧
    Set.BijOn (Kernel.slotIndex k) (spacesSlots [0x2000, 0x7000])
      {desc | desc < (k.tasks 0x1000).capCount.numCapSpace * NUM_SLOTS} := by
  obtain ⟨k₃, hrun⟩ := extendedTask_runs
  obtain ⟨⟨⟩, k₁, h₁, hrest⟩ := ok_of_bind hrun
  obtain ⟨k₁', k₁'', hget, hrest⟩ := ok_of_bind hrest
  obtain ⟨rfl, rfl⟩ : k₁ = k₁' ∧ k₁ = k₁'' := by
    injection hget with hvalue hstate
    exact ⟨hvalue, hstate⟩
  obtain ⟨va, k₂, h₂, hrest⟩ := ok_of_bind hrest
  obtain ⟨inserted, k₃', h₃, hpure⟩ := ok_of_bind hrest
  injection hpure with hanswers hk
  injection hanswers with hroot hanswers
  injection hanswers with hva hinserted
  subst hk hva hinserted
  have hinit := Grown.init (by decide) (by decide) (by decide) (by decide) h₁
  have hextended := hinit.extend (by decide) (by rw [hroot]; decide) h₂
  have hgrown := hextended.insert (by decide) (by decide) (by decide) h₃
  exact ⟨_, ⟨_, _, hrun⟩, (descriptors_name_slots hgrown).1⟩

end Caprese
