import Caprese.Proofs.UserMemory

/-!
# `Caprese.Proofs.Addresses`: addresses that a user makes up

The address of a message and the length of its payload come from the user unchecked.
`page_table_t::walk` asserts that an address lies below `CONFIG_MAX_VIRTUAL_ADDRESS`, and no
caller has checked it before. So the routines are safe on a range whose mapped bytes do not lead
up to the end of the address space, and on no other (`user_memory_inside_iff`). No sum wraps
around, since the assertion comes first.
-/

set_option autoImplicit false

namespace Caprese

open Lib Prog

variable {env : Env} {config : Config} {k : Kernel} {task srcTask dstTask : TaskPtr}
  {src dst addr size : Nat}

theorem not_strays_of_reads (hbound : size < config.loopBound) (haddr : addr < 2 ^ 64)
    (hreads : ReadsBytewise (.debug config) k task addr size) (c : Nat) :
    ¬ Strays k task addr size c := by
  intro hc
  obtain ⟨success, bytes, hr, -⟩ := hreads
  exact absurd (wp_ok (wp_readUserMemoryTo_strays hbound haddr hc) hr) id

theorem not_strays_of_writes {bytes : List UInt8} (hbound : bytes.length < config.loopBound)
    (haddr : addr < 2 ^ 64) (hwrites : WritesBytewise (.debug config) k task bytes addr) (c : Nat) :
    ¬ Strays k task addr bytes.length c := by
  intro hc
  obtain ⟨success, hr, -⟩ := hwrites
  exact absurd (wp_ok (wp_writeUserMemory_strays hbound haddr hc) hr) id

/-- `forward_user_memory` returns, and it fails if a byte of either range is not mapped. -/
def ForwardsInside (env : Env) (k : Kernel) (srcTask dstTask : TaskPtr) (src dst size : Nat) :
    Prop :=
  ∃ success k', forwardUserMemory srcTask dstTask src dst size env k = .ok success k' ∧
    k' = { k with memory := k'.memory } ∧
    (success = true → ∀ i, i < size →
      ((k.paging srcTask).translate (src + i)).isSome = true ∧
        ((k.paging dstTask).translate (dst + i)).isSome = true)

/-- What `forward_user_memory` does, as far as it has to do with addresses. -/
theorem forwards_through (hbound : size < env.config.loopBound)
    (hinside : ∀ c, ¬ ForwardStrays k srcTask dstTask src dst size c) :
    ∃ success k', forwardUserMemory srcTask dstTask src dst size env k = .ok success k' ∧
      k' = { k with memory := k'.memory } ∧
      (success = true ↔ (k.paging srcTask).GetsThrough (k.paging dstTask) src dst size) := by
  have hrun := @wp_forwardUserMemory k srcTask dstTask src dst size env (fun _ _ => False)
    (fun _ _ => True) (fun success k' => k' = { k with memory := k'.memory } ∧ (success = true ↔
      (k.paging srcTask).GetsThrough (k.paging dstTask) src dst size)) hbound
    (fun c hlt => inside_of_not_strays hinside hlt) (fun _ _ _ _ _ _ _ _ _ _ => trivial) trivial
    fun k' hframe success hsuccess _ => ⟨hframe, hsuccess⟩
  obtain ⟨success, k', hr, hframe, hsuccess⟩ := wp_returns hrun
  exact ⟨success, k', hr, hframe, hsuccess⟩

theorem forwards_inside_iff (hbound : size < config.loopBound) (hsrc : src < 2 ^ 64)
    (hdst : dst < 2 ^ 64) :
    ForwardsInside (.debug config) k srcTask dstTask src dst size ↔
      (∀ c, ¬ ForwardStrays k srcTask dstTask src dst size c) ∧
        ((k.paging srcTask).GetsThrough (k.paging dstTask) src dst size →
          ∀ i, i < size → ((k.paging dstTask).translate (dst + i)).isSome = true) := by
  constructor
  · rintro ⟨success, k', hr, -, hmapped⟩
    have hinside : ∀ c, ¬ ForwardStrays k srcTask dstTask src dst size c := fun c hc =>
      absurd (wp_ok (wp_forwardUserMemory_strays hbound hsrc hdst hc) hr) id
    refine ⟨hinside, fun hthrough i hi => ?_⟩
    obtain ⟨success', k'', hr', -, hsuccess⟩ := @forwards_through (.debug config) _ _ _ _ _ _
      hbound hinside
    rw [hr] at hr'
    obtain ⟨rfl, rfl⟩ := Outcome.ok.inj hr'
    exact (hmapped (hsuccess.mpr hthrough) i hi).2
  · rintro ⟨hinside, hdest⟩
    obtain ⟨success, k', hr, hframe, hsuccess⟩ := @forwards_through (.debug config) _ _ _ _ _ _
      hbound hinside
    refine ⟨success, k', hr, hframe, fun htrue i hi => ?_⟩
    have hthrough := hsuccess.mp htrue
    exact ⟨hthrough.source i hi, hdest hthrough i hi⟩

/-- The routines never fail an assertion, access mapped bytes only and fail if any other is in
the range, where the mapped bytes do not lead up to the end of the address space. Elsewhere they
fail an assertion; and the copy from task to task misses holes of its destination which do not
lie at the start of a page of the source. -/
theorem user_memory_inside_iff (hbound : size < config.loopBound) (hsrc : src < 2 ^ 64)
    (hdst : dst < 2 ^ 64) :
    (ReadsBytewise (.debug config) k task src size ↔ ∀ c, ¬ Strays k task src size c) ∧
    (∀ bytes : List UInt8, bytes.length = size →
      (WritesBytewise (.debug config) k task bytes dst ↔ ∀ c, ¬ Strays k task dst size c)) ∧
    (ForwardsInside (.debug config) k srcTask dstTask src dst size ↔
      (∀ c, ¬ ForwardStrays k srcTask dstTask src dst size c) ∧
        ((k.paging srcTask).GetsThrough (k.paging dstTask) src dst size →
          ∀ i, i < size → ((k.paging dstTask).translate (dst + i)).isSome = true)) := by
  refine ⟨⟨not_strays_of_reads hbound hsrc, fun hinside => reads_bytewise hinside hbound⟩,
    fun bytes hlength => ?_, forwards_inside_iff hbound hsrc hdst⟩
  subst hlength
  exact ⟨not_strays_of_writes hbound hdst, fun hinside => writes_bytewise hinside hbound⟩

/-- A range that begins on the last page and ends behind it is not mapped all over, and stays
inside. -/
theorem user_memory_inside_iff_page : ReadsBytewise (.debug pagesConfig) pagesKernel 1 0x2ffe 4 :=
  (@user_memory_inside_iff pagesConfig pagesKernel 1 1 1 0x2ffe 0 4 (by decide) (by decide)
    (by decide)).1.mpr (not_strays_of_space (by decide))

/-- The first address behind the address space. -/
theorem read_outside_asserts : ¬ ∀ (config : Config) (k : Kernel) (task : TaskPtr)
    (addr size : Nat), addr < 2 ^ 64 → size < config.loopBound →
    ∃ r k', readUserMemoryTo task addr size (.debug config) k = .ok r k' := by
  intro hclaim
  obtain ⟨r, k', hr⟩ := hclaim pagesConfig pagesKernel 1 (2 ^ 38) 4 (by decide) (by decide)
  have hstray : Strays pagesKernel 1 (2 ^ 38) 4 0 :=
    ⟨by decide, fun i hi => absurd hi (Nat.not_lt_zero i), by decide⟩
  exact absurd (wp_ok (wp_readUserMemoryTo_strays (by decide) (by decide) hstray) hr) id

end Caprese
