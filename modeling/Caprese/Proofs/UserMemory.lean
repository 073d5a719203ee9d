import Caprese.Memory.Copy
import Caprese.Kernel.Boot

/-!
# `Caprese.Proofs.UserMemory`: copies between the kernel and its users

`read_user_memory` and `write_user_memory` do what single bytes would do
(`user_memory_bytewise`). `forward_user_memory` does so if, and only if, the destination runs
on physically within each page of the source (`forward_user_memory_iff`): the length of a chunk
is that of the source page, also where the page of the destination ends before it.
-/

set_option autoImplicit false

namespace Caprese

open Lib Prog

variable {env : Env} {k : Kernel} {task srcTask dstTask : TaskPtr} {src dst addr size : Nat}

/-! ### One side -/

/-- `read_user_memory` leaves the mapped bytes in the buffer, up to the first that is not mapped,
and succeeds if all are. -/
def ReadsBytewise (env : Env) (k : Kernel) (task : TaskPtr) (src size : Nat) : Prop :=
  ∃ success bytes, readUserMemoryTo task src size env k = .ok (success, bytes) k ∧
    (success = true ↔ ∀ i, i < size → ((k.paging task).translate (src + i)).isSome = true) ∧
    bytes.length ≤ size ∧
    (bytes.length < size → (k.paging task).translate (src + bytes.length) = none) ∧
    ∀ i, i < bytes.length → ∃ pa, (k.paging task).translate (src + i) = some pa ∧
      bytes[i]? = some (k.memory pa)

/-- `write_user_memory` leaves the memory as the stores of the single bytes do, in increasing
order and up to the first that is not mapped, and succeeds if all are. -/
def WritesBytewise (env : Env) (k : Kernel) (task : TaskPtr) (bytes : List UInt8) (dst : Nat) :
    Prop :=
  ∃ success, writeUserMemory task bytes dst env k
      = .ok success { k with memory := (k.paging task).store k.memory dst bytes } ∧
    (success = true ↔
      ∀ i, i < bytes.length → ((k.paging task).translate (dst + i)).isSome = true)

/-- A copy that does not stray behind the address space is over in front of its end, or gets all
bytes. -/
theorem reach_of_not_strays (hinside : ∀ c, ¬ Strays k task addr size c) :
    (k.paging task).reach addr size = size ∨
      addr + (k.paging task).reach addr size < CONFIG_MAX_VIRTUAL_ADDRESS := by
  by_cases hall : (k.paging task).reach addr size = size
  · exact Or.inl hall
  · right
    by_contra hout
    have hlt := Nat.lt_of_le_of_ne (@Paging.reach_le (k.paging task) addr size) hall
    refine hinside _ ⟨hlt, fun i hi => ?_, hout⟩
    obtain ⟨pa, hpa⟩ := Paging.translate_of_lt_reach hi
    rw [hpa]
    rfl

theorem not_strays_of_space (hspace : addr + size < CONFIG_KERNEL_SPACE_BASE) (c : Nat) :
    ¬ Strays k task addr size c := by
  intro hc
  have hlt := hc.lt
  have hout := hc.outside
  change addr + size < 2 ^ 37 at hspace
  change ¬ addr + c < 2 ^ 38 at hout
  omega

theorem reads_bytewise (hinside : ∀ c, ¬ Strays k task src size c)
    (hbound : size < env.config.loopBound) : ReadsBytewise env k task src size := by
  have hrun := @wp_readUserMemoryTo k task src size env (fun _ _ => False)
    (fun r k' => r = (decide ((k.paging task).reach src size = size),
      (k.paging task).fetch k.memory src size) ∧ k' = k) hbound (reach_of_not_strays hinside)
    ⟨rfl, rfl⟩
  obtain ⟨r, k', hr, rfl, rfl⟩ := wp_returns hrun
  refine ⟨_, _, hr, ?_, ?_, fun hlt => ?_, fun i hi => ?_⟩
  · rw [decide_eq_true_iff]
    exact Paging.reach_eq_iff
  · rw [Paging.length_fetch]
    exact Paging.reach_le
  · rw [Paging.length_fetch] at hlt ⊢
    exact Paging.translate_reach hlt
  · rw [Paging.length_fetch] at hi
    obtain ⟨pa, hpa⟩ := Paging.translate_of_lt_reach hi
    refine ⟨pa, hpa, ?_⟩
    rw [Paging.getElem?_fetch hi, hpa]
    rfl

theorem writes_bytewise {bytes : List UInt8} (hinside : ∀ c, ¬ Strays k task dst bytes.length c)
    (hbound : bytes.length < env.config.loopBound) : WritesBytewise env k task bytes dst := by
  have hrun := @wp_writeUserMemory k task dst env (fun _ _ => False) bytes
    (fun r k' => r = decide ((k.paging task).reach dst bytes.length = bytes.length) ∧
      k' = { k with memory := (k.paging task).store k.memory dst bytes }) hbound
    (reach_of_not_strays hinside) ⟨rfl, rfl⟩
  obtain ⟨r, k', hr, rfl, rfl⟩ := wp_returns hrun
  refine ⟨_, hr, ?_⟩
  rw [decide_eq_true_iff]
  exact Paging.reach_eq_iff

/-- The chunked copies are copies of single bytes, for every shape of the tables. -/
theorem user_memory_bytewise (hspace : addr + size < CONFIG_KERNEL_SPACE_BASE)
    (hbound : size < env.config.loopBound) :
    ReadsBytewise env k task addr size ∧
      ∀ bytes : List UInt8, bytes.length = size → WritesBytewise env k task bytes addr := by
  refine ⟨reads_bytewise (not_strays_of_space hspace) hbound, fun bytes hlength => ?_⟩
  subst hlength
  exact writes_bytewise (not_strays_of_space hspace) hbound

/-! ### From one side to the other one -/

/-- The memory after the bytes of the source were read one by one, and then stored one by one. -/
def Kernel.copied (k : Kernel) (srcTask dstTask : TaskPtr) (src dst size : Nat) :
    PhysAddr → UInt8 :=
  (k.paging dstTask).store k.memory dst ((k.paging srcTask).fetch k.memory src size)

/-- `forward_user_memory` succeeds if all bytes of both buffers are mapped, and then does what
`read_user_memory` into a buffer and `write_user_memory` out of it do: the destination holds
the bytes of the source, and no other byte has changed. -/
def ForwardsBytewise (env : Env) (k : Kernel) (srcTask dstTask : TaskPtr) (src dst size : Nat) :
    Prop :=
  ∃ success k', forwardUserMemory srcTask dstTask src dst size env k = .ok success k' ∧
    (success = true ↔ ∀ i, i < size →
      ((k.paging srcTask).translate (src + i)).isSome = true ∧
        ((k.paging dstTask).translate (dst + i)).isSome = true) ∧
    (success = true →
      k' = { k with memory := k.copied srcTask dstTask src dst size } ∧
      ∃ bytes, readUserMemory srcTask src size env k = .ok (some bytes) k ∧
        writeUserMemory dstTask bytes dst env k = .ok true k')

/-- The exact condition: the copy does not get to an address behind the address space, and if it
gets through, the destination lies in a row along each page of the source. -/
def ForwardsWell (k : Kernel) (srcTask dstTask : TaskPtr) (src dst size : Nat) : Prop :=
  (∀ c, ¬ ForwardStrays k srcTask dstTask src dst size c) ∧
    ((k.paging srcTask).GetsThrough (k.paging dstTask) src dst size →
      (k.paging srcTask).LinesUp (k.paging dstTask) src dst size)

theorem inside_of_not_strays (h : ∀ c, ¬ ForwardStrays k srcTask dstTask src dst size c) {c : Nat}
    (hlt : c < size) (hc : (k.paging srcTask).Boundary src c)
    (hthrough : (k.paging srcTask).GetsThrough (k.paging dstTask) src dst c) :
    src + c < CONFIG_MAX_VIRTUAL_ADDRESS ∧ (((k.paging srcTask).translate (src + c)).isSome = true →
      dst + c < CONFIG_MAX_VIRTUAL_ADDRESS) := by
  constructor
  · by_contra hout
    exact h c ⟨hlt, hc, hthrough, Or.inl hout⟩
  · intro hmapped
    by_contra hout
    exact h c ⟨hlt, hc, hthrough, Or.inr ⟨hmapped, hout⟩⟩

theorem forwards_bytewise (hbound : size < env.config.loopBound)
    (hapart : (k.paging srcTask).Apart (k.paging dstTask) src dst size)
    (hwell : ForwardsWell k srcTask dstTask src dst size) :
    ForwardsBytewise env k srcTask dstTask src dst size := by
  by_cases hthrough : (k.paging srcTask).GetsThrough (k.paging dstTask) src dst size
  · have hline := hwell.2 hthrough
    -- All bytes get through: the copy ends with what a read and a write of them give.
    have hrun := @wp_forwardUserMemory k srcTask dstTask src dst size env (fun _ _ => False) _
      (fun success k' => success = true ∧ (k.paging srcTask).reach src size = size ∧
        (k.paging dstTask).reach dst size = size ∧
        k' = { k with memory := k.copied srcTask dstTask src dst size })
      hbound (fun c hlt => inside_of_not_strays hwell.1 hlt) (hline.copyStep (m := k.memory) hapart)
      ⟨rfl, rfl, rfl⟩ fun k' hframe success hsuccess hmemory => by
        have htrue := hsuccess.mpr hthrough
        obtain ⟨hP, hQ, hstore⟩ := hmemory htrue
        exact ⟨htrue, hP, hQ, hframe.trans (by rw [hstore]; rfl)⟩
    obtain ⟨success, k', hr, rfl, hP, hQ, rfl⟩ := wp_returns hrun
    have hlength : ((k.paging srcTask).fetch k.memory src size).length = size := by
      rw [Paging.length_fetch, hP]
    refine ⟨true, _, hr, ⟨fun _ i hi => ⟨hthrough.source i hi, ?_⟩, fun _ => rfl⟩,
      fun _ => ⟨rfl, (k.paging srcTask).fetch k.memory src size, ?_, ?_⟩⟩
    · exact Paging.reach_eq_iff.mp hQ i hi
    · have hread : wp (readUserMemory srcTask src size) env
          (fun r k' => r = some ((k.paging srcTask).fetch k.memory src size) ∧ k' = k)
          (fun _ _ => False) k := by
        unfold readUserMemory
        rw [wp_bind]
        refine wp_readUserMemoryTo hbound (Or.inl hP) ?_
        rw [hP, decide_eq_true rfl]
        exact ⟨rfl, rfl⟩
      obtain ⟨r, k', hr', rfl, rfl⟩ := wp_returns hread
      exact hr'
    · have hwrite := @wp_writeUserMemory k dstTask dst env (fun _ _ => False)
        ((k.paging srcTask).fetch k.memory src size)
        (fun r k' => r = true ∧ k' = { k with memory := k.copied srcTask dstTask src dst size })
        (by rwa [hlength]) (Or.inl (by rw [hlength, hQ]))
        ⟨by rw [hlength, hQ, decide_eq_true rfl], rfl⟩
      obtain ⟨r, k', hr', rfl, rfl⟩ := wp_returns hwrite
      exact hr'
  -- Some byte is not mapped: the copy fails, and so does a read or a write.
  · have hrun := @wp_forwardUserMemory k srcTask dstTask src dst size env (fun _ _ => False)
      (fun _ _ => True) (fun success _ => success = false) hbound (fun c hlt => inside_of_not_strays hwell.1 hlt)
      (fun _ _ _ _ _ _ _ _ _ _ => trivial) trivial fun k' _ success hsuccess _ => by
        rw [← Bool.not_eq_true, hsuccess]
        exact hthrough
    obtain ⟨success, k', hr, rfl⟩ := wp_returns hrun
    refine ⟨false, k', hr, ⟨fun hf => absurd hf (by decide), fun hall => absurd ?_ hthrough⟩,
      fun hf => absurd hf (by decide)⟩
    exact ⟨fun i hi => (hall i hi).1, fun hpos => (hall 0 hpos).2, fun i _ hi _ => (hall _ hi).2⟩

/-- What the copy does well whatever the memory holds meets the condition. -/
theorem forwardsWell_of_bytewise {config : Config} (hbound : size < config.loopBound)
    (hsrc : src + size ≤ 2 ^ 64) (hdst : dst + size ≤ 2 ^ 64)
    (hapart : (k.paging srcTask).Apart (k.paging dstTask) src dst size)
    (hP : (k.paging srcTask).Distinct src size) (hQ : (k.paging dstTask).Distinct dst size)
    (hall : ∀ memory, ForwardsBytewise (.debug config) { k with memory := memory } srcTask dstTask
      src dst size) : ForwardsWell k srcTask dstTask src dst size := by
  have hinside : ∀ c, ¬ ForwardStrays k srcTask dstTask src dst size c := by
    intro c hc
    obtain ⟨success, k', hr, -, -⟩ := hall k.memory
    have hlt := hc.lt
    exact absurd (wp_ok (wp_forwardUserMemory_strays hbound (by omega) (by omega) hc) hr) id
  refine ⟨hinside, fun hthrough => ?_⟩
  -- The copy gets through, so all bytes of the destination are mapped.
  have hrun : ∀ (memory : PhysAddr → UInt8) (M : Nat → (Nat → UInt8) → Prop),
      (k.paging srcTask).CopyStep (k.paging dstTask) src dst size M → M 0 memory →
      wp (forwardUserMemory srcTask dstTask src dst size) (.debug config)
        (fun success k' => success = true ∧ M size k'.memory) (fun _ _ => False)
        { k with memory := memory } := by
    intro memory M hM hstart
    refine wp_forwardUserMemory hbound (fun c hlt => inside_of_not_strays hinside hlt) hM hstart
      fun k' _ success hsuccess hend => ?_
    have htrue := hsuccess.mpr hthrough
    exact ⟨htrue, hend htrue⟩
  have hmapped : ∀ i, i < size → ((k.paging dstTask).translate (dst + i)).isSome = true := by
    obtain ⟨success, k', hr, hsuccess, -⟩ := hall k.memory
    have htrue := (wp_ok (hrun k.memory (fun _ _ => True) (fun _ _ _ _ _ _ _ _ _ _ => trivial)
      trivial) hr).1
    exact fun i hi => (hsuccess.mp htrue i hi).2
  refine Paging.linesUp_of_copies (show (0 : UInt8) ≠ 1 by decide) hthrough.source hmapped hapart hP hQ fun m M hM hstart => ?_
  obtain ⟨success, k', hr, -, hright⟩ := hall m
  obtain ⟨htrue, hend⟩ := wp_ok (hrun m M hM hstart) hr
  obtain ⟨rfl, -⟩ := hright htrue
  exact hend

/-- The transfer from task to task is one of single bytes where it goes well, and there only. -/
theorem forward_user_memory_iff {config : Config} (hbound : size < config.loopBound)
    (hsrc : src + size ≤ 2 ^ 64) (hdst : dst + size ≤ 2 ^ 64)
    (hapart : (k.paging srcTask).Apart (k.paging dstTask) src dst size) :
    (ForwardsWell k srcTask dstTask src dst size →
      ForwardsBytewise (.debug config) k srcTask dstTask src dst size) ∧
    ((k.paging srcTask).Distinct src size → (k.paging dstTask).Distinct dst size →
      (∀ memory, ForwardsBytewise (.debug config) { k with memory := memory } srcTask dstTask
        src dst size) → ForwardsWell k srcTask dstTask src dst size) :=
  ⟨forwards_bytewise hbound hapart, forwardsWell_of_bytewise hbound hsrc hdst hapart⟩

/-- A task with three pages at the start of its address space, which lie apart. -/
def pagesKernel : Kernel :=
  { Kernel.powerOn with
    tasks := fun t =>
      if t = 1 then { Task.zero with rootPageTable := 0x1000 } else Task.zero
    pageTables := fun table index =>
      if table = 0x1000 ∧ index = 0 then Pte.zero.fill .table 0x2000
      else if table = 0x2000 ∧ index = 0 then Pte.zero.fill .table 0x3000
      else if table = 0x3000 ∧ index < 3 then
        Pte.zero.fill (.userPage true true false) (0x10000 * (index + 1))
      else Pte.zero
    memory := fun a => if a = 0x10002 then 1 else 0 }

/-- A configuration to run the copies on. -/
def pagesConfig : Config where
  loopBound := 16
  kiloPage := 0
  messageHeaderSize := 0
  decodeHeader _ := ⟨0, 0, 0, 0, 0, []⟩
  encodeHeader _ := []
  msgTypeIpc := 0
  msgTypeKill := 1

/-- Four bytes of the second page. -/
theorem user_memory_bytewise_page :
    ReadsBytewise (.debug pagesConfig) pagesKernel 1 0x1ffe 4 ∧
      ∀ bytes : List UInt8, bytes.length = 4 →
        WritesBytewise (.debug pagesConfig) pagesKernel 1 bytes 0x1ffe :=
  user_memory_bytewise (by decide) (by decide)

theorem pages_apart {dst : Nat} (h : ∀ i, i < 4 → ∀ j, j < 4 →
    (pagesKernel.paging 1).translate (0 + i) ≠ (pagesKernel.paging 1).translate (dst + j)) :
    (pagesKernel.paging 1).Apart (pagesKernel.paging 1) 0 dst 4 := fun i j _ hi hj hsrc hdst =>
  h i hi j hj (hsrc.trans hdst.symm)

/-- Four bytes of the first page are copied into the middle of the second one. -/
theorem forward_user_memory_iff_page :
    ForwardsBytewise (.debug pagesConfig) pagesKernel 1 1 0 0x1800 4 := by
  refine (forward_user_memory_iff (by decide) (by decide) (by decide)
    (pages_apart (by decide +kernel))).1 ⟨fun c hc => ?_, fun _ i pa rest hi _ _ => ?_⟩
  · have hlt := hc.lt
    rcases hc.outside with hout | ⟨-, hout⟩
    · exact hout (Nat.lt_trans (Nat.add_lt_add_left hlt 0) (by decide))
    · exact hout (Nat.lt_trans (Nat.add_lt_add_left hlt 0x1800) (by decide))
  · have hall : ∀ i, i < 4 → (pagesKernel.paging 1).translate (0x1800 + i) = some (0x20800 + i) := by
      decide +kernel
    exact ⟨_, hall i (by omega), hall (i + 1) hi⟩

/-- The destination begins two bytes in front of the end of its page. The bytes behind are
stored in the wrong place. -/
theorem forward_overruns_page : ¬ ∀ (config : Config) (k : Kernel) (srcTask dstTask : TaskPtr)
    (src dst size : Nat), size < config.loopBound → src + size ≤ CONFIG_KERNEL_SPACE_BASE →
    dst + size ≤ CONFIG_KERNEL_SPACE_BASE →
    (k.paging srcTask).Apart (k.paging dstTask) src dst size →
    ForwardsBytewise (.debug config) k srcTask dstTask src dst size := by
  intro hclaim
  obtain ⟨success, k', hr, hsuccess, hright⟩ := hclaim pagesConfig pagesKernel 1 1 0 0x1ffe 4
    (by decide) (by decide) (by decide) (pages_apart (by decide +kernel))
  have hmapped : ∀ i, i < 4 → ((pagesKernel.paging 1).translate (0 + i)).isSome = true ∧
      ((pagesKernel.paging 1).translate (0x1ffe + i)).isSome = true := by decide +kernel
  obtain ⟨hk', -⟩ := hright (hsuccess.mpr hmapped)
  have hexpected : pagesKernel.copied 1 1 0 0x1ffe 4 0x30000 = 1 := by decide +kernel
  have hstored : (match forwardUserMemory 1 1 0 0x1ffe 4 (.debug pagesConfig) pagesKernel with
      | .ok _ k' => k'.memory 0x30000
      | .stop _ _ => 0) = 0 := by decide +kernel
  rw [hr, hk'] at hstored
  dsimp only at hstored
  rw [hexpected] at hstored
  exact absurd hstored (by decide)

end Caprese
