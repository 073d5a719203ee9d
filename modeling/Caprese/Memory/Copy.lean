import Caprese.Memory.Paging

/-!
# `Caprese.Memory.Copy`: the copies of `user_memory.cpp`

Each loop turns once per page. Its invariant is that the bytes in front of the counter were
copied one by one (`Paging.fetch`, `Paging.store`), and the counter stands at the start of a
page of the address that the loop goes by. There are at most as many turns as bytes.

`forward_user_memory` goes by the pages of the source alone. It gets through when the source is
mapped, and the destination is mapped where a page of the source begins (`GetsThrough`). The
bytes land where they should if the destination runs on physically all along a page of the
source (`LinesUp`).
-/

set_option autoImplicit false

namespace Caprese

open Lib Prog

variable {k : Kernel} {task srcTask dstTask : TaskPtr} {src dst size : Nat} {env : Env}
  {E : Stop → Kernel → Prop}

/-! ### Memory -/

theorem loadBytes_eq (addr n : Nat) : k.loadBytes addr n = Paging.load k.memory addr n := rfl

theorem storeBytes_eq (addr : Nat) (bytes : List UInt8) :
    k.storeBytes addr bytes = { k with memory := Paging.blit k.memory addr bytes } := by
  have hmemory : (k.storeBytes addr bytes).memory = Paging.blit k.memory addr bytes := by
    refine funext fun (a : Nat) => ?_
    show (if addr ≤ a ∧ a < addr + bytes.length then bytes.getD (a - addr) 0 else k.memory a) = _
    split
    · rename_i h
      have hlt : a - addr < bytes.length := by omega
      have happly := @Paging.blit_apply _ k.memory addr (a - addr) bytes hlt
      rw [Nat.add_sub_cancel' h.1] at happly
      rw [happly, List.getD_eq_getElem?_getD, List.getElem?_eq_getElem hlt]
      rfl
    · rename_i h
      exact (Paging.blit_ne h).symm
  rw [← hmemory]
  rfl

/-- An address that is mapped is not changed by the reduction to 64 bits. -/
theorem word_of_space {va : Nat} (h : va < CONFIG_MAX_VIRTUAL_ADDRESS) : va % 2 ^ 64 = va :=
  Nat.mod_eq_of_lt (Nat.lt_trans h (by decide))

/-! ### `read_user_memory` -/

theorem wp_readUserMemoryTo {Q : Bool × List UInt8 → Kernel → Prop}
    (hbound : size < env.config.loopBound)
    (hva : (k.paging task).reach src size = size ∨
      src + (k.paging task).reach src size < CONFIG_MAX_VIRTUAL_ADDRESS)
    (hQ : Q (decide ((k.paging task).reach src size = size),
      (k.paging task).fetch k.memory src size) k) :
    wp (readUserMemoryTo task src size) env Q E k := by
  refine wp_kloop_within (fun bytes => size - bytes.length)
    (fun bytes k' => k' = k ∧ bytes.length ≤ size ∧
      bytes = (k.paging task).fetch k.memory src bytes.length) ⟨rfl, Nat.zero_le _, rfl⟩ hbound ?_
  rintro bytes k' ⟨hk, hle, hbytes⟩
  subst hk
  have hreach : (k'.paging task).reach src bytes.length = bytes.length := by
    rw [← Paging.length_fetch (m := k'.memory), ← hbytes]
  rw [wp_ite]
  split
  · rename_i hlt
    -- The next byte lies in the address space, mapped or not.
    have hspace : src + bytes.length < CONFIG_MAX_VIRTUAL_ADDRESS := by
      cases hleaf : k'.leaf task (src + bytes.length) with
      | some found => exact leaf_va hleaf
      | none =>
        have hstop := Paging.reach_stop hreach (paging_unmapped.mpr hleaf) hle
        rw [hstop] at hva
        exact hva.resolve_left (Nat.ne_of_lt hlt)
    dsimp only
    rw [wp_bind, word_of_space hspace]
    refine wp_walk hspace ?_
    cases hleaf : k'.leaf task (src + bytes.length) with
    | none =>
      have hunmapped := paging_unmapped.mpr hleaf
      have hstop := Paging.reach_stop hreach hunmapped hle
      have hfetch := Paging.fetch_stop (m := k'.memory) hreach hunmapped hle
      rw [hstop, hfetch, ← hbytes, decide_eq_false (Nat.ne_of_lt hlt)] at hQ
      exact hQ
    | some found =>
      obtain ⟨pte, level⟩ := found
      have hchunk := paging_of_leaf hleaf
      have hpos := (k'.paging task).pos hchunk
      dsimp only
      rw [wp_bind, wp_get, wp_pure]
      have hlength : (bytes ++ k'.loadBytes (pte.getNextPage + (pageChunk (src + bytes.length) level).1)
          (min (pageChunk (src + bytes.length) level).2 (size - bytes.length))).length
          = bytes.length + min (pageChunk (src + bytes.length) level).2 (size - bytes.length) := by
        rw [List.length_append, loadBytes_eq, Paging.length_load]
      refine ⟨⟨rfl, ?_, ?_⟩, ?_⟩
      · rw [hlength]
        omega
      · rw [hlength, Paging.fetch_next hreach hchunk (Nat.min_le_left _ _), ← hbytes]
        rfl
      · show size - (bytes ++ _).length < size - bytes.length
        rw [hlength]
        omega
  · rename_i hge
    have hsize : bytes.length = size := Nat.le_antisymm hle (Nat.not_lt.mp hge)
    rw [hsize] at hreach hbytes
    rw [hreach, ← hbytes, decide_eq_true rfl] at hQ
    exact hQ

/-- A byte behind the address space that a copy gets to, since all bytes in front of it are
mapped. -/
structure Strays (k : Kernel) (task : TaskPtr) (addr size c : Nat) : Prop where
  lt : c < size
  mapped : ∀ i, i < c → ((k.paging task).translate (addr + i)).isSome = true
  outside : ¬ addr + c < CONFIG_MAX_VIRTUAL_ADDRESS

section Strays

variable {config : Config} {c n : Nat} {pa rest : Nat}

/-- A page does not reach over the end of the address space. -/
theorem Strays.page_le (h : Strays k task src size c) (hn : n ≤ c)
    (hchunk : (k.paging task).chunk (src + n) = some (pa, rest)) : n + rest ≤ c := by
  by_contra hover
  have hpage := Paging.translate_chunk hchunk (show c - n < rest by omega)
  rw [show src + n + (c - n) = src + c by omega] at hpage
  obtain ⟨found, hleaf⟩ := leaf_of_mapped (hpage ▸ rfl : ((k.paging task).translate (src + c)).isSome = true)
  exact h.outside (leaf_va hleaf)

/-- The sums of such a copy do not wrap around before it gets there. -/
theorem Strays.word_of_le (h : Strays k task src size c) (hsrc : src < 2 ^ 64) (hn : n ≤ c) :
    (src + n) % 2 ^ 64 = src + n := by
  refine Nat.mod_eq_of_lt ?_
  cases n with
  | zero => exact hsrc
  | succ n =>
    obtain ⟨found, hleaf⟩ := leaf_of_mapped (h.mapped n hn)
    have hva := leaf_va hleaf
    change src + n < 2 ^ 38 at hva
    omega

/-- Behind the address space an assertion fails. -/
theorem wp_readUserMemoryTo_strays (hbound : size < config.loopBound) (hsrc : src < 2 ^ 64)
    (hc : Strays k task src size c) :
    wp (readUserMemoryTo task src size) (.debug config) (fun _ _ => False)
      (fun e _ => e = .assertFailed) k := by
  have hlt := hc.lt
  refine wp_kloop_within (fun bytes => size - bytes.length)
    (fun bytes k' => bytes.length ≤ c ∧ k' = k) ⟨Nat.zero_le _, rfl⟩ hbound ?_
  rintro bytes k' ⟨hle, rfl⟩
  rw [wp_ite, if_pos (by omega)]
  dsimp only
  rw [wp_bind, hc.word_of_le hsrc hle]
  rcases Nat.lt_or_eq_of_le hle with hbefore | heq
  · obtain ⟨⟨pte, level⟩, hleaf⟩ := leaf_of_mapped (hc.mapped _ hbefore)
    have hchunk := paging_of_leaf hleaf
    have hnext := hc.page_le hle hchunk
    have hpos := (k'.paging task).pos hchunk
    refine wp_walk (leaf_va hleaf) ?_
    rw [hleaf]
    dsimp only
    rw [wp_bind, wp_get, wp_pure, Nat.min_eq_left (by omega)]
    dsimp only
    rw [List.length_append, loadBytes_eq, Paging.length_load]
    exact ⟨⟨hnext, rfl⟩, by omega⟩
  · rw [heq]
    exact wp_walk_outside hc.outside rfl

end Strays

/-! ### `write_user_memory` -/

theorem wp_writeUserMemory {bytes : List UInt8} {Q : Bool → Kernel → Prop}
    (hbound : bytes.length < env.config.loopBound)
    (hva : (k.paging task).reach dst bytes.length = bytes.length ∨
      dst + (k.paging task).reach dst bytes.length < CONFIG_MAX_VIRTUAL_ADDRESS)
    (hQ : Q (decide ((k.paging task).reach dst bytes.length = bytes.length))
      { k with memory := (k.paging task).store k.memory dst bytes }) :
    wp (writeUserMemory task bytes dst) env Q E k := by
  -- The invariant of the loop: the first bytes are stored, and so many are mapped.
  refine wp_kloop_within (fun written => bytes.length - written)
    (fun written k' => written ≤ bytes.length ∧ (k.paging task).reach dst written = written ∧
      k' = { k with memory := (k.paging task).store k.memory dst (bytes.take written) })
    ⟨Nat.zero_le _, rfl, rfl⟩ hbound ?_
  rintro written k' ⟨hle, hreach, hk⟩
  have hpaging : ∀ va, k'.leaf task va = k.leaf task va := fun va => by rw [hk]; rfl
  have htake : (bytes.take written).length = written := by
    rw [List.length_take, Nat.min_eq_left hle]
  rw [wp_ite]
  split
  · rename_i hlt
    -- A byte that is not mapped stops the loop here, and it is inside the address space.
    have hspace : dst + written < CONFIG_MAX_VIRTUAL_ADDRESS := by
      cases hleaf : k.leaf task (dst + written) with
      | some found => exact leaf_va hleaf
      | none =>
        have hstop := Paging.reach_stop hreach (paging_unmapped.mpr hleaf) hle
        rw [hstop] at hva
        exact hva.resolve_left (Nat.ne_of_lt hlt)
    dsimp only
    rw [wp_bind, word_of_space hspace]
    refine wp_walk hspace ?_
    rw [hpaging]
    cases hleaf : k.leaf task (dst + written) with
    | none =>
      have hunmapped := paging_unmapped.mpr hleaf
      have hstop := Paging.reach_stop hreach hunmapped hle
      have hstore : (k.paging task).store k.memory dst bytes
          = (k.paging task).store k.memory dst (bytes.take written) := by
        conv_lhs => rw [← List.take_append_drop written bytes]
        exact Paging.store_stop (by rw [htake, hreach]) (by rw [htake]; exact hunmapped)
      rw [hstop, hstore, decide_eq_false (Nat.ne_of_lt hlt), ← hk] at hQ
      exact hQ
    | some found =>
      obtain ⟨pte, level⟩ := found
      have hchunk := paging_of_leaf hleaf
      have hpos := (k.paging task).pos hchunk
      dsimp only
      rw [wp_bind, wp_modify, wp_pure]
      have hlength : ((bytes.drop written).take
          (min (pageChunk (dst + written) level).2 (bytes.length - written))).length
          = min (pageChunk (dst + written) level).2 (bytes.length - written) := by
        rw [List.length_take, List.length_drop]
        omega
      refine ⟨⟨by omega, Paging.reach_next hreach hchunk (Nat.min_le_left _ _), ?_⟩, by omega⟩
      rw [storeBytes_eq, hk, List.take_add, Paging.store_next (by rw [htake, hreach])
        (by rw [htake]; exact hchunk) (by rw [hlength]; exact Nat.min_le_left _ _)]
  · rename_i hge
    have hsize : written = bytes.length := Nat.le_antisymm hle (Nat.not_lt.mp hge)
    rw [hsize, List.take_length] at hk
    rw [hsize] at hreach
    rw [hreach, decide_eq_true rfl, ← hk] at hQ
    exact hQ

theorem wp_writeUserMemory_strays {config : Config} {bytes : List UInt8} {c : Nat}
    (hbound : bytes.length < config.loopBound) (hdst : dst < 2 ^ 64)
    (hc : Strays k task dst bytes.length c) :
    wp (writeUserMemory task bytes dst) (.debug config) (fun _ _ => False)
      (fun e _ => e = .assertFailed) k := by
  have hlt := hc.lt
  refine wp_kloop_within (fun written => bytes.length - written)
    (fun written k' => written ≤ c ∧ k' = { k with memory := k'.memory }) ⟨Nat.zero_le _, rfl⟩
    hbound ?_
  rintro written k' ⟨hle, hframe⟩
  have hleaf' : ∀ va, k'.leaf task va = k.leaf task va := fun va => by rw [hframe]; rfl
  rw [wp_ite, if_pos (by omega)]
  dsimp only
  rw [wp_bind, hc.word_of_le hdst hle]
  rcases Nat.lt_or_eq_of_le hle with hbefore | heq
  · obtain ⟨⟨pte, level⟩, hleaf⟩ := leaf_of_mapped (hc.mapped _ hbefore)
    have hchunk := paging_of_leaf hleaf
    have hnext := hc.page_le hle hchunk
    have hpos := (k.paging task).pos hchunk
    refine wp_walk (leaf_va hleaf) ?_
    rw [hleaf', hleaf]
    dsimp only
    rw [wp_bind, wp_modify, wp_pure, Nat.min_eq_left (by omega)]
    refine ⟨⟨hnext, ?_⟩, by omega⟩
    rw [storeBytes_eq, hframe]
  · rw [heq]
    exact wp_walk_outside hc.outside rfl

/-! ### `forward_user_memory` -/

/-- What is known in the middle of `forward_user_memory`, with an invariant of the memory. -/
structure Forwarding (k : Kernel) (srcTask dstTask : TaskPtr) (src dst size : Nat)
    (M : Nat → (Nat → UInt8) → Prop) (c : Nat) (k' : Kernel) : Prop where
  le : c ≤ size
  boundary : c = size ∨ (k.paging srcTask).Boundary src c
  through : (k.paging srcTask).GetsThrough (k.paging dstTask) src dst c
  frame : k' = { k with memory := k'.memory }
  memory : M c k'.memory

section Forward

variable {c : Nat} {k' : Kernel} {pa pb rest rest' : Nat} {M : Nat → (Nat → UInt8) → Prop}

/-- One turn of the loop. -/
theorem Forwarding.step (h : Forwarding k srcTask dstTask src dst size M c k')
    (hM : (k.paging srcTask).CopyStep (k.paging dstTask) src dst size M) (hlt : c < size)
    (hsrc : (k.paging srcTask).chunk (src + c) = some (pa, rest))
    (hdst : (k.paging dstTask).chunk (dst + c) = some (pb, rest')) :
    Forwarding k srcTask dstTask src dst size M (c + min rest (size - c))
      (k'.storeBytes pb (k'.loadBytes pa (min rest (size - c)))) := by
  have hpb : (k.paging dstTask).translate (dst + c) = some pb := Paging.translate_of_chunk hdst
  have hthrough := h.through.chunk hsrc (by rw [hpb]; rfl) (Nat.min_le_left rest (size - c))
  have hboundary := h.boundary.resolve_left (Nat.ne_of_lt hlt)
  refine ⟨by omega, ?_, hthrough, ?_, ?_⟩
  · by_cases hrest : rest ≤ size - c
    · rw [Nat.min_eq_left hrest]
      exact Or.inr (Paging.boundary_chunk hsrc)
    · left
      omega
  · rw [storeBytes_eq, h.frame]
  · rw [storeBytes_eq]
    exact hM c k'.memory pa rest pb hlt hboundary hsrc hpb h.memory

/-- The copy gets through, or it fails. Which of the two, the memory has no part in. -/
theorem wp_forwardUserMemory {Q : Bool → Kernel → Prop} (hbound : size < env.config.loopBound)
    (hva : ∀ c, c < size → (k.paging srcTask).Boundary src c →
      (k.paging srcTask).GetsThrough (k.paging dstTask) src dst c →
      src + c < CONFIG_MAX_VIRTUAL_ADDRESS ∧
        (((k.paging srcTask).translate (src + c)).isSome = true →
          dst + c < CONFIG_MAX_VIRTUAL_ADDRESS))
    (hM : (k.paging srcTask).CopyStep (k.paging dstTask) src dst size M) (hstart : M 0 k.memory)
    (hQ : ∀ k', k' = { k with memory := k'.memory } → ∀ success, (success = true ↔
      (k.paging srcTask).GetsThrough (k.paging dstTask) src dst size) →
      (success = true → M size k'.memory) → Q success k') :
    wp (forwardUserMemory srcTask dstTask src dst size) env Q E k := by
  -- The invariant of the loop: `M` of the bytes so far, all of which got through.
  refine wp_kloop_within (fun forwarded => size - forwarded)
    (fun c k' => Forwarding k srcTask dstTask src dst size M c k')
    ⟨Nat.zero_le _, Or.inr (Or.inl rfl), .zero, rfl, hstart⟩ hbound ?_
  intro c k' h
  have hleaf : ∀ task va, k'.leaf task va = k.leaf task va := fun task va => by rw [h.frame]; rfl
  have hfalse : ¬ (k.paging srcTask).GetsThrough (k.paging dstTask) src dst size → Q false k' :=
    fun hfails => hQ k' h.frame false ⟨fun hf => absurd hf (by decide), fun ht => absurd ht hfails⟩
      fun hf => absurd hf (by decide)
  rw [wp_ite]
  split
  · rename_i hlt
    have hboundary := h.boundary.resolve_left (Nat.ne_of_lt hlt)
    obtain ⟨hsrc, hdst⟩ := hva c hlt hboundary h.through
    dsimp only
    rw [wp_bind, word_of_space hsrc]
    refine wp_walk hsrc ?_
    rw [hleaf]
    cases hs : k.leaf srcTask (src + c) with
    | none =>
      -- A stop at a byte that is not mapped, so not all bytes get through.
      refine hfalse fun hthrough => ?_
      have hsome := hthrough.source c hlt
      rw [paging_unmapped.mpr hs] at hsome
      exact absurd hsome (by decide)
    | some found =>
      obtain ⟨srcPte, srcLevel⟩ := found
      have hchunk := paging_of_leaf hs
      have hdst' := hdst (by rw [Paging.translate_of_chunk hchunk]; rfl)
      dsimp only
      rw [wp_bind, word_of_space hdst']
      refine wp_walk hdst' ?_
      rw [hleaf]
      cases hd : k.leaf dstTask (dst + c) with
      | none =>
        refine hfalse fun hthrough => ?_
        have hsome := hthrough.dest hboundary hlt
        rw [paging_unmapped.mpr hd] at hsome
        exact absurd hsome (by decide)
      | some found' =>
        obtain ⟨dstPte, dstLevel⟩ := found'
        have hpos := (k.paging srcTask).pos hchunk
        dsimp only
        rw [wp_bind, wp_modify, wp_pure]
        exact ⟨h.step hM hlt hchunk (paging_of_leaf hd), by omega⟩
  · rename_i hge
    have hsize : c = size := Nat.le_antisymm h.le (Nat.not_lt.mp hge)
    subst hsize
    exact hQ k' h.frame true ⟨fun _ => h.through, fun _ => rfl⟩ fun _ => h.memory

/-- A byte that the copy stops at, and that it gets to, lies behind the address space. -/
structure ForwardStrays (k : Kernel) (srcTask dstTask : TaskPtr) (src dst size c : Nat) :
    Prop where
  lt : c < size
  boundary : (k.paging srcTask).Boundary src c
  through : (k.paging srcTask).GetsThrough (k.paging dstTask) src dst c
  outside : ¬ src + c < CONFIG_MAX_VIRTUAL_ADDRESS ∨
    ((k.paging srcTask).translate (src + c)).isSome = true ∧ ¬ dst + c < CONFIG_MAX_VIRTUAL_ADDRESS

/-- The sums do not wrap around on the way to such a byte. -/
theorem ForwardStrays.lt_word (h : ForwardStrays k srcTask dstTask src dst size c)
    (hsrc : src < 2 ^ 64) (hdst : dst < 2 ^ 64) : src + c < 2 ^ 64 ∧ dst + c < 2 ^ 64 := by
  cases c with
  | zero => exact ⟨hsrc, hdst⟩
  | succ c =>
    obtain ⟨found, hs⟩ := leaf_of_mapped (h.through.source c (Nat.lt_succ_self c))
    obtain ⟨found', hd⟩ := leaf_of_mapped (h.through.first (Nat.succ_pos c))
    have hsva := leaf_va hs
    have hdva := leaf_va hd
    change src + c < 2 ^ 38 at hsva
    change dst < 2 ^ 38 at hdva
    omega

theorem wp_forwardUserMemory_strays {config : Config} (hbound : size < config.loopBound)
    (hsrc : src < 2 ^ 64) (hdst : dst < 2 ^ 64)
    (hc : ForwardStrays k srcTask dstTask src dst size c) :
    wp (forwardUserMemory srcTask dstTask src dst size) (.debug config) (fun _ _ => False)
      (fun e _ => e = .assertFailed) k := by
  have hlt := hc.lt
  have hword := hc.lt_word hsrc hdst
  refine wp_kloop_within (fun forwarded => size - forwarded) (fun c' k' => c' ≤ c ∧
    (k.paging srcTask).Boundary src c' ∧ k' = { k with memory := k'.memory })
    ⟨Nat.zero_le _, Or.inl rfl, rfl⟩ hbound ?_
  rintro c' k' ⟨hle, hboundary, hframe⟩
  have hleaf : ∀ task va, k'.leaf task va = k.leaf task va := fun task va => by rw [hframe]; rfl
  have hwrap : (src + c') % 2 ^ 64 = src + c' := Nat.mod_eq_of_lt (by omega)
  have hwrap' : (dst + c') % 2 ^ 64 = dst + c' := Nat.mod_eq_of_lt (by omega)
  rw [wp_ite, if_pos (by omega)]
  dsimp only
  rw [wp_bind, hwrap, hwrap']
  rcases Nat.lt_or_eq_of_le hle with hlt' | heq
  · -- Both bytes are mapped, and the next stop is not behind `c`.
    obtain ⟨found, hs⟩ := leaf_of_mapped (hc.through.source c' hlt')
    obtain ⟨found', hd⟩ := leaf_of_mapped (hc.through.dest hboundary hlt')
    have hchunk := paging_of_leaf hs
    have hnext := Paging.boundary_le hchunk hc.boundary hlt'
    have hpos := (k.paging srcTask).pos hchunk
    refine wp_walk (leaf_va hs) ?_
    rw [hleaf, hs]
    dsimp only
    rw [wp_bind]
    refine wp_walk (leaf_va hd) ?_
    rw [hleaf, hd]
    dsimp only
    rw [wp_bind, wp_modify, wp_pure, Nat.min_eq_left (by omega)]
    refine ⟨⟨hnext, Paging.boundary_chunk hchunk, ?_⟩, by omega⟩
    rw [storeBytes_eq, hframe]
  · subst heq
    by_cases hin : src + c' < CONFIG_MAX_VIRTUAL_ADDRESS
    · obtain ⟨hmapped, hout⟩ := hc.outside.resolve_left (not_not.mpr hin)
      obtain ⟨found, hs⟩ := leaf_of_mapped hmapped
      refine wp_walk hin ?_
      rw [hleaf, hs]
      dsimp only
      rw [wp_bind]
      exact wp_walk_outside hout rfl
    · exact wp_walk_outside hin rfl

end Forward

end Caprese
