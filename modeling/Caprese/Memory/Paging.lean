import Caprese.Kernel.UserMemory
import Caprese.Lib.Paging

/-!
# `Caprese.Memory.Paging`: what a task's page tables map

`Kernel.paging k task` is the translation of user addresses by the page tables of a task: the
leaf that `walk` finds, and the rest of its page. The three routines of `user_memory.cpp`
go from page to page. Their rules say what they do in terms of single bytes, for every shape
of the tables and every build.

The page tables and the kernel's own buffers are not part of `Kernel.memory`: no user page lies
over them.
-/

set_option autoImplicit false

namespace Caprese

open Lib Prog

namespace Kernel

/-- The leaf that the levels of a table lead to, as `walk` looks for it. -/
def leafFrom (k : Kernel) (va : Nat) : List Nat → TablePtr → Option (Pte × Nat)
  | [], _ => none
  | level :: levels, table =>
    let pte := k.pte table (getPageTableIndex va level)
    if pte.isDisabled then none
    else if pte.isTable then leafFrom k va levels pte.getNextPage
    else if pte.isUser then some (pte, level)
    else none

/-- The entry that maps `va` for the user. -/
def leaf (k : Kernel) (task : TaskPtr) (va : Nat) : Option (Pte × Nat) :=
  if va < CONFIG_MAX_VIRTUAL_ADDRESS then
    k.leafFrom va [GIGA_PAGE_TABLE_LEVEL, MEGA_PAGE_TABLE_LEVEL, KILO_PAGE_TABLE_LEVEL]
      (k.tasks task).rootPageTable
  else none

end Kernel

variable {k : Kernel} {task : TaskPtr} {va va' level : Nat} {levels : List Nat} {table : TablePtr}
  {pte : Pte} {env : Env} {E : Stop → Kernel → Prop}

/-! ### The leaf is that of the page -/

theorem getPageSize_pos : 0 < getPageSize level :=
  Nat.mul_pos (by decide) (Nat.two_pow_pos _)

theorem getPageSize_eq : getPageSize level = 2 ^ (PAGE_SIZE_BIT + 9 * level) := by
  unfold getPageSize
  rw [Nat.pow_add]
  rfl

/-- The indices of a level and of those above it are the same all over a page. -/
theorem getPageTableIndex_congr {l : Nat} (hl : level ≤ l)
    (hpage : va' / getPageSize level = va / getPageSize level) :
    getPageTableIndex va' l = getPageTableIndex va l := by
  have hsplit : 2 ^ (PAGE_SIZE_BIT + 9 * l) = getPageSize level * 2 ^ (9 * (l - level)) := by
    rw [getPageSize_eq, ← Nat.pow_add]
    congr 1
    omega
  unfold getPageTableIndex
  rw [hsplit, ← Nat.div_div_eq_div_mul, ← Nat.div_div_eq_div_mul, hpage]

theorem leafFrom_level (h : k.leafFrom va levels table = some (pte, level)) : level ∈ levels := by
  induction levels generalizing table with
  | nil => exact absurd h (by simp [Kernel.leafFrom])
  | cons l levels ih =>
    unfold Kernel.leafFrom at h
    dsimp only at h
    split at h
    · exact absurd h (by simp)
    · split at h
      · exact List.mem_cons_of_mem l (ih h)
      · split at h
        · obtain ⟨-, rfl⟩ := Prod.mk.inj (Option.some.inj h)
          exact List.mem_cons_self
        · exact absurd h (by simp)

/-- The descent meets the same entries for all addresses of the page that it finds. -/
theorem leafFrom_congr (hlevels : levels.Pairwise (· > ·))
    (h : k.leafFrom va levels table = some (pte, level))
    (hpage : va' / getPageSize level = va / getPageSize level) :
    k.leafFrom va' levels table = some (pte, level) := by
  induction levels generalizing table with
  | nil => exact absurd h (by simp [Kernel.leafFrom])
  | cons l levels ih =>
    obtain ⟨hfirst, hrest⟩ := List.pairwise_cons.mp hlevels
    have hl : level ≤ l := by
      rcases List.mem_cons.mp (leafFrom_level h) with rfl | hmem
      · exact Nat.le_refl level
      · exact Nat.le_of_lt (hfirst level hmem)
    unfold Kernel.leafFrom at h ⊢
    dsimp only at h ⊢
    rw [getPageTableIndex_congr hl hpage]
    split at h
    · exact absurd h (by simp)
    · rename_i henabled
      rw [if_neg henabled]
      split at h
      · rename_i htable
        rw [if_pos htable]
        exact ih hrest h
      · rename_i htable
        rw [if_neg htable]
        exact h

theorem leaf_level (h : k.leaf task va = some (pte, level)) : level ≤ MAX_PAGE_TABLE_LEVEL := by
  unfold Kernel.leaf at h
  split at h
  · have hmem := leafFrom_level h
    simp only [List.mem_cons, List.not_mem_nil, or_false] at hmem
    rcases hmem with rfl | rfl | rfl <;> decide
  · exact absurd h (by simp)

theorem leaf_va (h : k.leaf task va = some (pte, level)) : va < CONFIG_MAX_VIRTUAL_ADDRESS := by
  unfold Kernel.leaf at h
  split at h
  · assumption
  · exact absurd h (by simp)

/-- A page lies on one side of the end of the address space. -/
theorem page_in_space (hlevel : level ≤ MAX_PAGE_TABLE_LEVEL)
    (hpage : va' / getPageSize level = va / getPageSize level)
    (hva : va < CONFIG_MAX_VIRTUAL_ADDRESS) : va' < CONFIG_MAX_VIRTUAL_ADDRESS := by
  have hsplit : CONFIG_MAX_VIRTUAL_ADDRESS
      = getPageSize level * 2 ^ (38 - (PAGE_SIZE_BIT + 9 * level)) := by
    have hle : PAGE_SIZE_BIT + 9 * level ≤ 38 := by
      change 12 + 9 * level ≤ 38
      change level ≤ 2 at hlevel
      omega
    rw [getPageSize_eq, ← Nat.pow_add, Nat.add_sub_cancel' hle]
  rw [hsplit] at hva ⊢
  rw [Nat.mul_comm, ← Nat.div_lt_iff_lt_mul getPageSize_pos] at hva ⊢
  rw [hpage]
  exact hva

theorem leaf_congr (h : k.leaf task va = some (pte, level))
    (hpage : va' / getPageSize level = va / getPageSize level) :
    k.leaf task va' = some (pte, level) := by
  have hva' := page_in_space (leaf_level h) hpage (leaf_va h)
  unfold Kernel.leaf at h ⊢
  rw [if_pos hva']
  split at h
  · exact leafFrom_congr (by decide) h hpage
  · exact absurd h (by simp)

/-! ### The paging of a task -/

/-- The translation of user addresses by the page tables of a task. -/
def Kernel.paging (k : Kernel) (task : TaskPtr) : Paging where
  chunk va := (k.leaf task va).map fun found =>
    (found.1.getNextPage + (pageChunk va found.2).1, (pageChunk va found.2).2)
  pos {va pa rest} h := by
    obtain ⟨⟨pte, level⟩, -, heq⟩ := Option.map_eq_some_iff.mp h
    obtain ⟨-, rfl⟩ := Prod.mk.inj heq
    have hlt := Nat.mod_lt va (@getPageSize_pos level)
    show 0 < getPageSize level - va % getPageSize level
    omega
  linear {va pa rest j} h hj := by
    obtain ⟨⟨pte, level⟩, hleaf, heq⟩ := Option.map_eq_some_iff.mp h
    obtain ⟨rfl, rfl⟩ := Prod.mk.inj heq
    change j < getPageSize level - va % getPageSize level at hj
    have hlt := Nat.mod_lt va (@getPageSize_pos level)
    have hdiv := Nat.div_add_mod va (getPageSize level)
    have hsplit : va + j = va % getPageSize level + j + getPageSize level * (va / getPageSize level) := by
      omega
    have hpage : (va + j) / getPageSize level = va / getPageSize level := by
      rw [hsplit, Nat.add_mul_div_left _ _ getPageSize_pos, Nat.div_eq_of_lt (by omega), Nat.zero_add]
    have hmod : (va + j) % getPageSize level = va % getPageSize level + j := by
      rw [hsplit, Nat.add_mul_mod_self_left, Nat.mod_eq_of_lt (by omega)]
    rw [leaf_congr hleaf hpage]
    show some (pte.getNextPage + (va + j) % getPageSize level,
        getPageSize level - (va + j) % getPageSize level)
      = some (pte.getNextPage + va % getPageSize level + j,
        getPageSize level - va % getPageSize level - j)
    rw [hmod, Nat.add_assoc, Nat.sub_add_eq]

theorem paging_chunk : (k.paging task).chunk va = (k.leaf task va).map fun found =>
    (found.1.getNextPage + (pageChunk va found.2).1, (pageChunk va found.2).2) := rfl

theorem paging_of_leaf (h : k.leaf task va = some (pte, level)) :
    (k.paging task).chunk va
      = some (pte.getNextPage + (pageChunk va level).1, (pageChunk va level).2) := by
  rw [paging_chunk, h]
  rfl

theorem paging_unmapped : (k.paging task).translate va = none ↔ k.leaf task va = none := by
  rw [Paging.translate_eq_none, paging_chunk, Option.map_eq_none_iff]

theorem leaf_of_mapped (h : ((k.paging task).translate va).isSome = true) :
    ∃ found, k.leaf task va = some found := by
  cases hleaf : k.leaf task va with
  | some found => exact ⟨found, rfl⟩
  | none =>
    rw [paging_unmapped.mpr hleaf] at h
    exact absurd h (by decide)

/-- A store to the memory changes no mapping. -/
@[simp] theorem paging_storeBytes (addr : Nat) (bytes : List UInt8) :
    (k.storeBytes addr bytes).paging task = k.paging task := rfl

/-! ### `walk` -/

theorem wp_walkLevels {Q : Option (Pte × Nat) → Kernel → Prop}
    (hva : va < CONFIG_MAX_VIRTUAL_ADDRESS) (hlevels : ∀ l ∈ levels, l ≤ MAX_PAGE_TABLE_LEVEL)
    (hQ : Q (k.leafFrom va levels table) k) : wp (walkLevels va levels table) env Q E k := by
  induction levels generalizing table with
  | nil => exact hQ
  | cons l levels ih =>
    have hl : l ≤ MAX_PAGE_TABLE_LEVEL := hlevels l List.mem_cons_self
    unfold walkLevels pageTableWalk
    rw [wp_bind, wp_bind]
    refine wp_kassert_holds hva ?_
    rw [wp_bind]
    refine wp_kassert_holds hl ?_
    rw [wp_pure, wp_bind, wp_get]
    unfold Kernel.leafFrom at hQ
    dsimp only at hQ ⊢
    rw [wp_ite]
    split
    · rename_i hdisabled
      rw [if_pos hdisabled] at hQ
      exact hQ
    · rename_i hdisabled
      rw [if_neg hdisabled] at hQ
      rw [wp_ite]
      split
      · rename_i htable
        rw [if_pos htable] at hQ
        exact ih (fun l' hl' => hlevels l' (List.mem_cons_of_mem l hl')) hQ
      · rename_i htable
        rw [if_neg htable] at hQ
        rw [wp_ite]
        split
        · rename_i huser
          rw [if_pos huser] at hQ
          exact hQ
        · rename_i huser
          rw [if_neg huser] at hQ
          exact hQ

theorem wp_walk {Q : Option (Pte × Nat) → Kernel → Prop} (hva : va < CONFIG_MAX_VIRTUAL_ADDRESS)
    (hQ : Q (k.leaf task va) k) : wp (walk task va) env Q E k := by
  unfold walk
  rw [wp_bind, wp_get]
  refine wp_walkLevels hva (by decide) ?_
  unfold Kernel.leaf at hQ
  rwa [if_pos hva] at hQ

/-- The assertion of `page_table_t::walk` rejects an address behind the address space. -/
theorem wp_walk_outside {config : Config} {Q : Option (Pte × Nat) → Kernel → Prop}
    (hva : ¬ va < CONFIG_MAX_VIRTUAL_ADDRESS) (hE : E .assertFailed k) :
    wp (walk task va) (.debug config) Q E k := by
  unfold walk walkLevels pageTableWalk
  rw [wp_bind, wp_get, wp_bind, wp_bind, wp_kassert, if_neg hva]
  exact hE

end Caprese
