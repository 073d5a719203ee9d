import Caprese.Proofs.Descriptors
import Caprese.Proofs.Failure
import Caprese.Proofs.UserMemory
import Caprese.Store.Boot

/-!
# `Caprese.Proofs.Handover`: the capabilities of a message, all or none

`ipc_transfer_ipc_msg` hands the capabilities of a message over one by one, and nothing takes back
those that went over before one fails. A word that names no capability at all is not even refused:
`transfer_cap` asserts that there is a slot, and `delegate_cap` dereferences it. A message is
handed over as a whole or not at all if, and only if, nothing fails behind the first word
(`transfer_all_or_none_iff`).
-/

set_option autoImplicit false

namespace Caprese

open Lib Prog

variable {config : Config} {k k' : Kernel} {dst src task : TaskPtr} {x y : SlotPtr} {i : Nat}

/-! ### One capability -/

/-- The capability of `x` has gone to the slot `y` of `dst`, which was free. -/
structure Gave (k : Kernel) (dst : TaskPtr) (x y : SlotPtr) (delegate : Bool) (k' : Kernel) :
    Prop where
  inv : StoreInv k' ∅
  free : k.cap y = .null
  owner : k.owner y = some dst
  cap : k'.cap = upd (upd k.cap y (k.cap x)) x (if delegate then .zombie else .null)
  tables : k'.pageTables = k.pageTables
  slotTask : ∀ s, k'.slotTask s = k.slotTask s

/-- `insert_cap` into a task that has room. -/
theorem wp_insertCap_room {c : Capability} {E : Stop → Kernel → Prop}
    {Q : Option SlotPtr → Kernel → Prop} (h : StoreInv k ∅) (halive : ¬ isDead (k.tasks dst))
    (hroom : (k.tasks dst).freeSlots ≠ none)
    (hQ : ∀ y k₁, Popped k dst y k₁ → k.owner y = some dst → Q (some y) (k₁.setCap y c)) :
    wp (insertCap dst c) (.debug config) Q E k := by
  have hstate : ¬ ((k.tasks dst).state = .unused ∨ (k.tasks dst).state = .killed) := halive
  have hused : (k.tasks dst).state ≠ .unused := fun heq => hstate (Or.inl heq)
  unfold insertCap
  rw [wp_bind, wp_get, wp_ite, if_neg hstate, wp_bind, wp_popFreeSlots h hused]
  cases hs : (k.tasks dst).freeSlots with
  | none => exact absurd hs hroom
  | some y => exact hQ y _ (h.popped_spec hused hs) (h.of_freeSlots hused hs).1

theorem wp_transferCap_gave (h : StoreInv k ∅) (hx : Givable k dst x) :
    wp (transferCap dst (some x)) (.debug config)
      (fun r k' => ∃ y, r = some y ∧ Gave k dst x y false k') (fun _ _ => False) k := by
  obtain ⟨owner, howner, howns⟩ := hx.owner
  have hnames := names_of_not_fixed hx.free
  obtain ⟨a, b, hl⟩ := h.exists_chain hnames.1
  unfold transferCap
  simp only [wp_bind, wp_deref, wp_get, wp_kassert, wp_ite, ne_eq, reduceCtorEq, not_false_eq_true,
    if_true, howner]
  rw [if_neg hx.free, if_neg hx.alive, if_neg howns]
  refine wp_insertCap_room h hx.alive hx.room fun y k₁ hy hown => ?_
  simp only [wp_bind, wp_pure]
  refine hy.wp_move hnames.1 howner hl fun k' hinv hstore => ⟨y, rfl, ?_⟩
  exact ⟨hinv, hy.null, hown, congrArg CapStore.cap hstore, congrArg CapStore.tables hstore,
    fun s => congrFun (congrArg CapStore.space hstore) s.space⟩

theorem wp_delegateCap_gave (h : StoreInv k ∅) (hx : Givable k dst x)
    (hbound : 0 < config.loopBound) :
    wp (delegateCap dst (some x)) (.debug config)
      (fun r k' => ∃ y, r = some y ∧ Gave k dst x y true k') (fun _ _ => False) k := by
  obtain ⟨owner, howner, howns⟩ := hx.owner
  have hnames := names_of_not_fixed hx.free
  obtain ⟨a, b, hl⟩ := h.exists_chain hnames.1
  unfold delegateCap
  simp only [wp_bind, wp_deref, wp_get, wp_ite, howner]
  rw [if_neg hx.free, if_neg hx.alive, if_neg howns]
  refine wp_insertCap_room h hx.alive hx.room fun y k₁ hy hown => ?_
  simp only [wp_bind, wp_modify, wp_pure]
  refine hy.wp_derive hnames.1 (fun hzero => absurd hzero (Nat.ne_of_gt hbound)) (by simp) hl
    fun k' hinv hstore => ⟨y, rfl, ?_⟩
  exact ⟨hinv, hy.null, hown, congrArg CapStore.cap hstore, congrArg CapStore.tables hstore,
    fun s => congrFun (congrArg CapStore.space hstore) s.space⟩

/-- A capability that cannot be handed over is refused, if there is one at all. -/
theorem wp_give_refused {owner : TaskPtr} {E : Stop → Kernel → Prop}
    (howner : k.slotTask x = some owner) (hx : ¬ Givable k dst x)
    {tail : SlotPtr → K (Option SlotPtr)} :
    wp (do
      if isFixed ((← get).cap x) then
        setErrno .eCapType
        return none
      if isDead ((← get).tasks dst) then
        setErrno .eIllState
        return none
      if isDead ((← get).tasks owner) then
        setErrno .eIllState
        return none
      match ← insertCap dst ((← get).cap x) with
      | none => return none
      | some y => tail y) (.debug config) (fun r k' => r = none ∧ Still k k') E k := by
  rw [wp_bind, wp_get, wp_ite]
  split
  · exact ⟨rfl, rfl⟩
  · rename_i hfree
    rw [wp_bind, wp_get, wp_ite]
    split
    · exact ⟨rfl, rfl⟩
    · rename_i halive
      rw [wp_bind, wp_get, wp_ite]
      split
      · exact ⟨rfl, rfl⟩
      · rename_i howns
        have hfull : (k.tasks dst).freeSlots = none := by
          by_contra hroom
          exact hx ⟨⟨owner, howner, howns⟩, hfree, halive, hroom⟩
        rw [wp_bind, wp_get, wp_bind]
        exact wp_insertCap_full hfull fun k' hk' => ⟨rfl, hk'⟩

theorem wp_transferCap_refused {owner : TaskPtr} {E : Stop → Kernel → Prop}
    (howner : k.slotTask x = some owner) (hx : ¬ Givable k dst x) :
    wp (transferCap dst (some x)) (.debug config) (fun r k' => r = none ∧ Still k k') E k := by
  unfold transferCap
  simp only [wp_bind, wp_kassert, ne_eq, reduceCtorEq, not_false_eq_true, if_true]
  rw [wp_deref]
  dsimp only
  rw [wp_get, howner, wp_deref]
  exact wp_give_refused howner hx

theorem wp_delegateCap_refused {owner : TaskPtr} {E : Stop → Kernel → Prop}
    (howner : k.slotTask x = some owner) (hx : ¬ Givable k dst x) :
    wp (delegateCap dst (some x)) (.debug config) (fun r k' => r = none ∧ Still k k') E k := by
  unfold delegateCap
  rw [wp_bind, wp_deref]
  dsimp only
  rw [wp_bind, wp_get, wp_bind, howner, wp_deref]
  exact wp_give_refused howner hx

/-! ### One word -/

/-- Where word `i` of a message lies. -/
def wordAddr (config : Config) (k : Kernel) (task : TaskPtr) (i : Nat) : Nat :=
  ((k.tasks task).ipcLongMsg + (config.messageHeaderSize + WORD_SIZE * i)) % 2 ^ 64

/-- The word is mapped. -/
def WordMapped (config : Config) (k : Kernel) (task : TaskPtr) (i : Nat) : Prop :=
  ∀ j, j < WORD_SIZE → ((k.paging task).translate (wordAddr config k task i + j)).isSome = true

/-- The word of the payload names the slot `x`. -/
structure Names (config : Config) (k : Kernel) (src : TaskPtr) (i : Nat) (bytes : List UInt8)
    (x : SlotPtr) : Prop where
  read : readUserMemory src ((k.tasks src).ipcLongMsg
    + (config.messageHeaderSize + WORD_SIZE * i)) WORD_SIZE (.debug config) k = .ok (some bytes) k
  found : lookupCap src (bytesWord bytes % 2 ^ 63) (.debug config) k = .ok (some x) k

/-- The word is refused without an effect: it is not mapped, or names a capability that cannot be
handed over. -/
def Refused (config : Config) (k : Kernel) (dst src : TaskPtr) (i : Nat) : Prop :=
  readUserMemory src ((k.tasks src).ipcLongMsg
    + (config.messageHeaderSize + WORD_SIZE * i)) WORD_SIZE (.debug config) k = .ok none k ∨
  ∃ bytes x, Names config k src i bytes x ∧ ¬ Givable k dst x

/-- The message asks for a delegation. -/
def delegates (bytes : List UInt8) : Bool := bytesWord bytes % 2 ^ 63 ≠ bytesWord bytes

theorem length_wordBytes (word : Nat) : (wordBytes word).length = WORD_SIZE := by
  unfold wordBytes
  rw [List.length_map, List.length_range]

theorem writeUserMemory_mod (task : TaskPtr) (bytes : List UInt8) (addr : Nat) :
    writeUserMemory task bytes (addr % 2 ^ 64) = writeUserMemory task bytes addr := by
  unfold writeUserMemory
  simp only [Nat.mod_add_mod]

theorem va_lt_of_mapped {va : Nat} (h : ((k.paging task).translate va).isSome = true) :
    va < CONFIG_MAX_VIRTUAL_ADDRESS := by
  unfold Paging.translate at h
  rw [Option.isSome_map, paging_chunk, Option.isSome_map] at h
  obtain ⟨⟨pte, level⟩, hleaf⟩ := Option.isSome_iff_exists.mp h
  exact leaf_va hleaf

/-- The word is written if it is mapped, and only then. -/
theorem wp_writeWord {bytes : List UInt8} {addr : Nat} (hbound : WORD_SIZE < config.loopBound)
    (hlength : bytes.length = WORD_SIZE) {P : Prop}
    (hP : P ↔ ∀ j, j < WORD_SIZE → ((k.paging task).translate (addr % 2 ^ 64 + j)).isSome = true) :
    wp (writeUserMemory task bytes addr) (.debug config) (fun success k' => (success = true ↔ P) ∧
      (P → k' = { k with memory := (k.paging task).store k.memory (addr % 2 ^ 64) bytes }) ∧
      Still k k') (fun _ _ => ¬ P) k := by
  rw [← writeUserMemory_mod]
  have hlt : addr % 2 ^ 64 < 2 ^ 64 := Nat.mod_lt _ (by decide)
  by_cases hstray : ∃ c, Strays k task (addr % 2 ^ 64) bytes.length c
  · obtain ⟨c, hc⟩ := hstray
    refine wp_mono (wp_writeUserMemory_strays (hlength ▸ hbound) hlt hc) (fun _ _ h => h.elim)
      fun _ _ _ hmapped => ?_
    exact hc.outside (va_lt_of_mapped (hP.mp hmapped c (hlength ▸ hc.lt)))
  · refine wp_writeUserMemory (hlength ▸ hbound)
      (reach_of_not_strays fun c hc => hstray ⟨c, hc⟩) ⟨?_, fun _ => rfl, rfl⟩
    rw [decide_eq_true_iff, Paging.reach_eq_iff, hlength, hP]

theorem paging_translate_congr (htables : k'.pageTables = k.pageTables)
    (hroot : (k'.tasks task).rootPageTable = (k.tasks task).rootPageTable) (va : Nat) :
    (k'.paging task).translate va = (k.paging task).translate va := by
  have hpte : ∀ table index, k'.pte table index = k.pte table index := fun table index => by
    unfold Kernel.pte
    rw [htables]
  have hfrom : ∀ levels table, k'.leafFrom va levels table = k.leafFrom va levels table := by
    intro levels
    induction levels with
    | nil => exact fun _ => rfl
    | cons level levels ih =>
      intro table
      unfold Kernel.leafFrom
      dsimp only
      rw [hpte, ih]
  unfold Paging.translate
  rw [paging_chunk, paging_chunk]
  unfold Kernel.leaf
  rw [hroot, hfrom]

/-- A slot that a descriptor names holds a capability, and belongs to a task. -/
theorem Names.owner (h : StoreInv k ∅) {bytes : List UInt8} (hn : Names config k src i bytes x) :
    (∃ owner, k.slotTask x = some owner) ∧ k.findCap src (bytesWord bytes % 2 ^ 63) = some x := by
  have hfind : k.findCap src (bytesWord bytes % 2 ^ 63) = some x := by
    have hrun : wp (lookupCap src (bytesWord bytes % 2 ^ 63)) (.debug config)
        (fun r _ => k.findCap src (bytesWord bytes % 2 ^ 63) = r ∨ r = none) NoSwitch k :=
      wp_lookupCap (fun _ hs => Or.inl hs) fun _ => Or.inr rfl
    exact (wp_ok hrun hn.found).resolve_right (by simp)
  refine ⟨?_, hfind⟩
  have hnull : k.cap x ≠ .null := by
    unfold Kernel.findCap at hfind
    split at hfind
    · exact nomatch hfind
    · split at hfind
      · exact nomatch hfind
      · split at hfind
        · exact nomatch hfind
        · rename_i hcap
          rwa [← Option.some.inj hfind]
  obtain ⟨owner, howner⟩ := h.owner_of_cap hnull
  exact ⟨owner, Kernel.owner_slotTask howner⟩

/-- A word in the memory of a task. -/
def Kernel.putWord (k : Kernel) (config : Config) (task : TaskPtr) (i word : Nat) : Kernel :=
  let memory := (k.paging task).store k.memory (wordAddr config k task i) (wordBytes word)
  { k with memory := memory }

/-- The word has gone over: the capability has, and its new descriptor replaces the word. -/
structure Went (config : Config) (k : Kernel) (dst src : TaskPtr) (i : Nat) (x y : SlotPtr)
    (k₁ k' : Kernel) : Prop where
  names : ∃ bytes, Names config k src i bytes x ∧ Gave k dst x y (delegates bytes) k₁
  replaced : k' = k₁.putWord config dst i (k₁.slotIndex y)

/-- What becomes of a word. -/
def WordEnds (config : Config) (k : Kernel) (dst src : TaskPtr) (i : Nat) (success : Bool)
    (k' : Kernel) : Prop :=
  (Refused config k dst src i ∧ success = false ∧ Still k k') ∨
  ∃ bytes x y k₁, Names config k src i bytes x ∧ Givable k dst x ∧
    Gave k dst x y (delegates bytes) k₁ ∧ (success = true ↔ WordMapped config k dst i) ∧
    (success = true → Went config k dst src i x y k₁ k') ∧ Still k₁ k'

/-- Where a word stops, it is neither refused nor could it go over. -/
def WordStops (config : Config) (k : Kernel) (dst src : TaskPtr) (i : Nat) : Prop :=
  ¬ Refused config k dst src i ∧
    ¬ (GivesCap (.debug config) k dst src i ∧ WordMapped config k dst i)

/-- The word names one slot. -/
theorem Names.unique {bytes bytes' : List UInt8} {x' : SlotPtr} (h : Names config k src i bytes x)
    (h' : Names config k src i bytes' x') : bytes' = bytes ∧ x' = x := by
  have heq := h'.read.symm.trans h.read
  injection heq with hsome
  obtain rfl := Option.some.inj hsome
  have heq' := h'.found.symm.trans h.found
  injection heq' with hfound
  exact ⟨rfl, Option.some.inj hfound⟩

theorem Names.not_refused {bytes : List UInt8} (h : Names config k src i bytes x)
    (hx : Givable k dst x) : ¬ Refused config k dst src i := by
  rintro (hnone | ⟨bytes', x', h', hx'⟩)
  · exact nomatch hnone.symm.trans h.read
  · obtain ⟨-, rfl⟩ := h.unique h'
    exact hx' hx

/-- A word that names a slot. -/
theorem wp_giveWord {bytes : List UInt8} (h : StoreInv k ∅) (hbound : WORD_SIZE < config.loopBound)
    (hn : Names config k src i bytes x) :
    wp (do
      let dstSlot ← if bytesWord bytes % 2 ^ 63 ≠ bytesWord bytes then delegateCap dst (some x)
        else transferCap dst (some x)
      match dstSlot with
      | none => return false
      | some dstSlot =>
        let dstCapDesc ← getCapSlotIndex dstSlot
        writeUserMemory dst (wordBytes dstCapDesc)
          (((← get).tasks dst).ipcLongMsg + (config.messageHeaderSize + WORD_SIZE * i)))
      (.debug config) (WordEnds config k dst src i)
      (fun _ _ => WordStops config k dst src i) k := by
  obtain ⟨⟨owner, howner⟩, -⟩ := hn.owner h
  -- The capability goes over, or the task has no room or the slot holds nothing to give.
  by_cases hx : Givable k dst x
  -- Once the capability has gone over, only the store of its descriptor can fail.
  · have hwrite : ∀ y k₁, Gave k dst x y (delegates bytes) k₁ → SchedFrame k k₁ →
        wp (do
          let dstCapDesc ← getCapSlotIndex y
          writeUserMemory dst (wordBytes dstCapDesc)
            (((← get).tasks dst).ipcLongMsg + (config.messageHeaderSize + WORD_SIZE * i)))
          (.debug config) (WordEnds config k dst src i)
          (fun _ _ => WordStops config k dst src i) k₁ := by
      intro y k₁ hgave hframe
      have htask := hframe.tasks dst
      have hmsg : (k₁.tasks dst).ipcLongMsg = (k.tasks dst).ipcLongMsg := by
        have hbare : (k₁.tasks dst).bare.ipcMsg = (k.tasks dst).bare.ipcMsg := by rw [htask]
        exact congrArg (fun msg : List Nat => msg.headD 0) hbare
      have hroot : (k₁.tasks dst).rootPageTable = (k.tasks dst).rootPageTable := by
        have hbare : (k₁.tasks dst).bare.rootPageTable = (k.tasks dst).bare.rootPageTable := by
          rw [htask]
        exact hbare
      have haddr : wordAddr config k₁ dst i = wordAddr config k dst i := by
        unfold wordAddr
        rw [hmsg]
      have hmapped : WordMapped config k dst i ↔ ∀ j, j < WORD_SIZE →
          ((k₁.paging dst).translate (wordAddr config k₁ dst i + j)).isSome = true := by
        unfold WordMapped
        simp only [haddr, paging_translate_congr hgave.tables hroot]
      rw [wp_bind]
      show wp (writeUserMemory dst (wordBytes (k₁.slotIndex y)) _) (.debug config) _ _ k₁
      refine wp_mono (wp_writeWord hbound (length_wordBytes _) hmapped) ?_ ?_
      · rintro success k' ⟨hsuccess, hstored, hstill⟩
        refine Or.inr ⟨bytes, x, y, k₁, hn, hx, hgave, hsuccess, fun htrue => ?_, hstill⟩
        exact ⟨⟨bytes, hn, hgave⟩, hstored (hsuccess.mp htrue)⟩
      · exact fun _ _ hunmapped => ⟨hn.not_refused hx, fun hgives => hunmapped hgives.2⟩
    dsimp only
    rw [wp_ite]
    split
    · rename_i hdelegates
      rw [wp_bind]
      have hgave := wp_delegateCap_gave h hx (Nat.lt_of_le_of_lt (Nat.zero_le _) hbound)
      refine wp_mono (wp_and hgave (SchedFrame.keeps_delegateCap dst (some x) (.debug config) k)) ?_
        fun _ _ hfalse => hfalse.1.elim
      rintro _ k₁ ⟨⟨y, rfl, hy⟩, hframe⟩
      rw [show true = delegates bytes from (decide_eq_true hdelegates).symm] at hy
      exact hwrite y k₁ hy hframe
    · rename_i htransfers
      rw [wp_bind]
      have hgave := @wp_transferCap_gave config k dst x h hx
      refine wp_mono (wp_and hgave (SchedFrame.keeps_transferCap dst (some x) (.debug config) k)) ?_
        fun _ _ hfalse => hfalse.1.elim
      rintro _ k₁ ⟨⟨y, rfl, hy⟩, hframe⟩
      rw [show false = delegates bytes from (decide_eq_false htransfers).symm] at hy
      exact hwrite y k₁ hy hframe
  · have hend : ∀ r k', r = none ∧ Still k k' → wp (match r with
        | none => return false
        | some dstSlot => do
          let dstCapDesc ← getCapSlotIndex dstSlot
          writeUserMemory dst (wordBytes dstCapDesc)
            (((← get).tasks dst).ipcLongMsg + (config.messageHeaderSize + WORD_SIZE * i)))
        (.debug config) (WordEnds config k dst src i)
        (fun _ _ => WordStops config k dst src i) k' := by
      rintro _ k' ⟨rfl, hstill⟩
      exact Or.inl ⟨Or.inr ⟨bytes, x, hn, hx⟩, rfl, hstill⟩
    dsimp only
    rw [wp_ite]
    split
    · rw [wp_bind]
      exact wp_mono (wp_delegateCap_refused howner hx) hend fun _ _ h => h
    · rw [wp_bind]
      exact wp_mono (wp_transferCap_refused howner hx) hend fun _ _ h => h

theorem wp_transferMsgCap_cases (h : StoreInv k ∅) (hbound : WORD_SIZE < config.loopBound) :
    wp (transferMsgCap dst src i) (.debug config) (WordEnds config k dst src i)
      (fun _ _ => WordStops config k dst src i) k := by
  -- Both sides begin with the same runs.
  have hstop : (∀ bytes x, ¬ Names config k src i bytes x) → ¬ (readUserMemory src
      ((k.tasks src).ipcLongMsg + (config.messageHeaderSize + WORD_SIZE * i)) WORD_SIZE
      (.debug config) k = .ok none k) → WordStops config k dst src i := by
    refine fun hnames hread => ⟨fun hrefused => ?_, fun hgives => ?_⟩
    · rcases hrefused with hnone | ⟨bytes, x, hn, -⟩
      · exact hread hnone
      · exact hnames bytes x hn
    · obtain ⟨⟨bytes, x, hsome, hfound, -⟩, -⟩ := hgives
      exact hnames bytes x ⟨hsome, hfound⟩
  unfold transferMsgCap
  rw [wp_bind, wp_ask, wp_bind, wp_get, wp_bind]
  refine wp_run (fun bytes k₁ hread => ?_) fun e k₁ hread => ?_
  · obtain rfl : k = k₁ := wp_ok (keeps_readUserMemory (R := Eq) _ _ _ _ _) hread
    cases bytes with
    | none => exact Or.inl ⟨Or.inl hread, rfl, rfl⟩
    | some bytes =>
      have hbytes : ∀ bytes' x, Names config k src i bytes' x → bytes' = bytes := by
        intro bytes' x hn
        have heq := hn.read.symm.trans hread
        injection heq with hsome
        exact Option.some.inj hsome
      have hread' : ¬ readUserMemory src ((k.tasks src).ipcLongMsg
          + (config.messageHeaderSize + WORD_SIZE * i)) WORD_SIZE (.debug config) k = .ok none k :=
        fun hnone => nomatch hnone.symm.trans hread
      dsimp only
      rw [wp_bind]
      refine wp_run (fun slot k₂ hlookup => ?_) fun e k₂ hlookup => ?_
      · cases slot with
        | none =>
          have hnames : ∀ bytes' x, ¬ Names config k src i bytes' x := by
            intro bytes' x hn
            obtain rfl := hbytes bytes' x hn
            exact nomatch hn.found.symm.trans hlookup
          rw [wp_ite]
          split
          · exact hstop hnames hread'
          · unfold transferCap
            rw [wp_bind, wp_bind, wp_kassert, if_neg (by simp)]
            exact hstop hnames hread'
        | some x =>
          obtain rfl : k₂ = k := (wp_ok wp_lookupCap_still hlookup).2 x rfl
          exact wp_giveWord h hbound ⟨hread, hlookup⟩
      · refine hstop (fun bytes' x hn => ?_) hread'
        obtain rfl := hbytes bytes' x hn
        exact nomatch hn.found.symm.trans hlookup
  · refine hstop (fun bytes x hn => ?_) fun hnone => ?_
    · exact nomatch hn.read.symm.trans hread
    · exact nomatch hnone.symm.trans hread

/-! ### All words -/

theorem Still.storeInv (hs : Still k k') (h : StoreInv k ∅) : StoreInv k' ∅ := by
  refine StoreFrame.storeInv (k := k) ?_ h
  rw [hs]
  exact ⟨rfl, rfl, fun _ => rfl, fun _ => rfl, fun _ => Iff.rfl⟩

theorem Still.cap (hs : Still k k') : k'.cap = k.cap := by
  rw [hs]
  rfl

theorem Still.slotTask (hs : Still k k') (s : SlotPtr) : k'.slotTask s = k.slotTask s := by
  rw [hs]
  rfl

/-- All words have gone over, one after the other. -/
def AllWent (config : Config) (dst src : TaskPtr) : List Nat → Kernel → Kernel → Prop
  | [], k, k' => k' = k
  | i :: is, k, k' => ∃ x y k₁ k₂, Went config k dst src i x y k₁ k₂ ∧
    AllWent config dst src is k₂ k'

/-- Each of the words, when it comes to its turn, names a capability that can be handed over, and
has a place in the memory of the receiver. -/
def AllGo (config : Config) (dst src : TaskPtr) : List Nat → Kernel → Prop
  | [], _ => True
  | i :: is, k => GivesCap (.debug config) k dst src i ∧ WordMapped config k dst i ∧
    ∀ k', transferMsgCap dst src i (.debug config) k = .ok true k' → AllGo config dst src is k'

theorem isCapWord_clear {map : List Nat} {j : Nat} (hne : j ≠ i) :
    isCapWord (clearCapWord map i) j = isCapWord map j := by
  unfold isCapWord clearCapWord
  by_cases hword : i / XLEN = j / XLEN
  · have hbit : i % XLEN ≠ j % XLEN := by
      change i / 64 = j / 64 at hword
      show i % 64 ≠ j % 64
      omega
    rw [List.getD_eq_getElem?_getD, List.getD_eq_getElem?_getD, List.getElem?_modify, hword]
    cases map[j / XLEN]? with
    | none => simp
    | some word => simp [Nat.testBit_xor, Nat.testBit_two_pow_of_ne hbit]
  · rw [List.getD_eq_getElem?_getD, List.getD_eq_getElem?_getD, List.getElem?_modify]
    simp [hword]

theorem filter_clear {is map : List Nat} (hi : i ∉ is) :
    is.filter (isCapWord (clearCapWord map i)) = is.filter (isCapWord map) :=
  List.filter_congr fun _ hj => isCapWord_clear fun heq => hi (heq ▸ hj)

theorem wp_transferMsgCaps_cases {is map : List Nat} (h : StoreInv k ∅)
    (hbound : WORD_SIZE < config.loopBound) (hnodup : is.Nodup) :
    wp (transferMsgCaps dst src is map) (.debug config) (fun r k' =>
      (r = some ((is.filter (isCapWord map)).foldl clearCapWord map) ∧
        AllGo config dst src (is.filter (isCapWord map)) k ∧
        AllWent config dst src (is.filter (isCapWord map)) k k') ∨
      (r = none ∧ ¬ AllGo config dst src (is.filter (isCapWord map)) k ∧
        ∀ i rest, is.filter (isCapWord map) = i :: rest → Refused config k dst src i → Still k k'))
      (fun _ _ => ¬ AllGo config dst src (is.filter (isCapWord map)) k ∧
        ∀ i rest, is.filter (isCapWord map) = i :: rest → ¬ Refused config k dst src i) k := by
  induction is generalizing map k with
  | nil => exact Or.inl ⟨rfl, trivial, rfl⟩
  | cons i is ih =>
    obtain ⟨hi, hnodup'⟩ := List.nodup_cons.mp hnodup
    unfold transferMsgCaps
    rw [wp_ite]
    split
    · rename_i hflag
      rw [List.filter_cons_of_pos hflag, wp_bind]
      have hfirst : ∀ {i' rest} {P : Prop}, i :: is.filter (isCapWord map) = i' :: rest →
          (Refused config k dst src i → P) → Refused config k dst src i' → P := by
        intro i' rest P heq hP
        rw [← (List.cons.inj heq).1]
        exact hP
      refine wp_mono (wp_self (wp_transferMsgCap_cases h hbound)) ?_ ?_
      · rintro success k₁ ⟨hends, hrun⟩
        rcases hends with ⟨hrefused, rfl, hstill⟩ | ⟨bytes, x, y, k₂, hn, hx, hgave, hmapped, hwent, hstill⟩
        · refine Or.inr ⟨rfl, fun hgo => ?_, fun i' rest heq _ => hstill⟩
          obtain ⟨bytes, x, hread, hfound, hx⟩ := hgo.1
          exact Names.not_refused ⟨hread, hfound⟩ hx hrefused
        · have hgives : GivesCap (.debug config) k dst src i := ⟨bytes, x, hn.read, hn.found, hx⟩
          have hnot := hn.not_refused hx
          rw [wp_ite]
          split
          · rename_i htrue
            rw [htrue] at hrun
            have hfilter : is.filter (isCapWord (clearCapWord map i)) = is.filter (isCapWord map) :=
              filter_clear hi
            have hrest : wp (transferMsgCaps dst src is (clearCapWord map i)) (.debug config) _ _ k₁ :=
              ih (hstill.storeInv hgave.inv) hnodup'
            rw [hfilter] at hrest
            -- The first word goes over, so all go over where the rest does in the next state.
            have hturn : AllGo config dst src (i :: is.filter (isCapWord map)) k ↔
                AllGo config dst src (is.filter (isCapWord map)) k₁ := by
              refine ⟨fun hgo => hgo.2.2 k₁ hrun, fun hgo => ⟨hgives, hmapped.mp htrue, ?_⟩⟩
              intro k₃ hrun'
              rw [hrun] at hrun'
              injection hrun' with _ hk
              exact hk ▸ hgo
            refine wp_mono hrest ?_ fun _ _ hstop => ⟨fun hgo => hstop.1 (hturn.mp hgo),
              fun i' rest heq => hfirst heq fun hr => hnot hr⟩
            rintro r k₃ (⟨hr, hgo, hwent'⟩ | ⟨hr, hgo, -⟩)
            · exact Or.inl ⟨hr, hturn.mpr hgo, x, y, k₂, k₁, hwent htrue, hwent'⟩
            · exact Or.inr ⟨hr, fun hgo' => hgo (hturn.mp hgo'), fun i' rest heq =>
                hfirst heq fun hr' => absurd hr' hnot⟩
          · rename_i hfalse
            exact Or.inr ⟨rfl, fun hgo => hfalse (hmapped.mpr hgo.2.1),
              fun i' rest heq => hfirst heq fun hr => absurd hr hnot⟩
      · rintro e k₁ ⟨⟨hnot, hgives⟩, -⟩
        exact ⟨fun hgo => hgives ⟨hgo.1, hgo.2.1⟩, fun i' rest heq => hfirst heq hnot⟩
    · rename_i hflag
      rw [List.filter_cons_of_neg hflag]
      exact ih h hnodup'

/-- No slot that the descriptors of `src` name belongs to `dst`. -/
def SpacesApart (k : Kernel) (dst src : TaskPtr) : Prop :=
  ∀ desc x, k.findCap src desc = some x → k.slotTask x ≠ some dst

/-- A slot outside of `dst` whose capability cannot be handed over stays as it is. -/
structure Settled (k : Kernel) (dst : TaskPtr) (x : SlotPtr) : Prop where
  inv : StoreInv k ∅
  outside : k.slotTask x ≠ some dst
  fixed : isFixed (k.cap x)

theorem Settled.still {z : SlotPtr} (h : Settled k dst z) (hs : Still k k') :
    Settled k' dst z ∧ k'.cap z = k.cap z :=
  ⟨⟨hs.storeInv h.inv, hs.slotTask z ▸ h.outside, hs.cap ▸ h.fixed⟩, congrFun hs.cap z⟩

theorem Settled.gave {z : SlotPtr} {delegate : Bool} (h : Settled k dst z)
    (hx : Givable k dst x) (hgave : Gave k dst x y delegate k') :
    Settled k' dst z ∧ k'.cap z = k.cap z := by
  have hzx : z ≠ x := fun heq => hx.free (heq ▸ h.fixed)
  have hzy : z ≠ y := fun heq => h.outside (heq ▸ Kernel.owner_slotTask hgave.owner)
  have hcap : k'.cap z = k.cap z := by rw [hgave.cap, upd_ne _ _ hzx, upd_ne _ _ hzy]
  exact ⟨⟨hgave.inv, hgave.slotTask z ▸ h.outside, hcap ▸ h.fixed⟩, hcap⟩

theorem Settled.wp_transferMsgCap {z : SlotPtr} (h : Settled k dst z)
    (hbound : WORD_SIZE < config.loopBound) :
    wp (transferMsgCap dst src i) (.debug config)
      (fun _ k' => Settled k' dst z ∧ k'.cap z = k.cap z) (fun _ _ => True) k := by
  refine wp_mono (wp_transferMsgCap_cases h.inv hbound) ?_ fun _ _ _ => trivial
  rintro success k' (⟨-, -, hstill⟩ | ⟨bytes, x, y, k₁, -, hx, hgave, -, -, hstill⟩)
  · exact h.still hstill
  · obtain ⟨h₁, hcap₁⟩ := h.gave hx hgave
    obtain ⟨h', hcap'⟩ := h₁.still hstill
    exact ⟨h', hcap'.trans hcap₁⟩

theorem Settled.wp_transferMsgCaps {z : SlotPtr} {is map : List Nat} (h : Settled k dst z)
    (hbound : WORD_SIZE < config.loopBound) :
    wp (transferMsgCaps dst src is map) (.debug config) (fun _ k' => k'.cap z = k.cap z)
      (fun _ _ => True) k := by
  induction is generalizing map k with
  | nil => exact rfl
  | cons i is ih =>
    unfold transferMsgCaps
    rw [wp_ite]
    split
    · rw [wp_bind]
      refine wp_mono (h.wp_transferMsgCap hbound) ?_ fun _ _ _ => trivial
      rintro success k₁ ⟨h₁, hcap₁⟩
      rw [wp_ite]
      split
      · exact wp_mono (ih h₁) (fun _ _ hcap => hcap.trans hcap₁) fun _ _ _ => trivial
      · exact hcap₁
    · exact ih h

/-- Once a word has not been refused, the capabilities are not what they were. -/
theorem wp_transferMsgCaps_changed {is map : List Nat} (h : StoreInv k ∅)
    (hbound : WORD_SIZE < config.loopBound) (hapart : SpacesApart k dst src)
    {rest : List Nat} (hwords : is.filter (isCapWord map) = i :: rest)
    (hfirst : ¬ Refused config k dst src i) :
    wp (transferMsgCaps dst src is map) (.debug config) (fun _ k' => k'.cap ≠ k.cap)
      (fun _ _ => True) k := by
  induction is with
  | nil => exact nomatch hwords
  | cons j is ih =>
    unfold transferMsgCaps
    rw [wp_ite]
    split
    · rename_i hflag
      rw [List.filter_cons_of_pos hflag] at hwords
      obtain rfl := (List.cons.inj hwords).1
      rw [wp_bind]
      refine wp_mono (wp_transferMsgCap_cases h hbound) ?_ fun _ _ _ => trivial
      rintro success k₁ (⟨hrefused, -, -⟩ | ⟨bytes, x, y, k₂, hn, hx, hgave, -, -, hstill⟩)
      · exact absurd hrefused hfirst
      · have hcap₂ : k₂.cap x = if delegates bytes then .zombie else .null := by
          rw [hgave.cap, upd_same]
        have hfixed : isFixed (k₂.cap x) := by
          rw [hcap₂]
          cases delegates bytes
          · exact Or.inl rfl
          · exact Or.inr rfl
        have hout : k₂.slotTask x ≠ some dst :=
          hgave.slotTask x ▸ hapart _ x (hn.owner h).2
        obtain ⟨hsettled, hcap₁⟩ := (Settled.mk hgave.inv hout hfixed).still hstill
        have hne : k₁.cap x ≠ k.cap x := fun heq => hx.free (heq ▸ hcap₁ ▸ hfixed)
        rw [wp_ite]
        split
        · exact wp_mono (hsettled.wp_transferMsgCaps hbound)
            (fun _ k₃ hcap₃ heq => hne (hcap₃.symm.trans (congrFun heq x))) fun _ _ _ => trivial
        · exact fun heq => hne (congrFun heq x)
    · rename_i hflag
      rw [List.filter_cons_of_neg hflag] at hwords
      exact ih hwords

/-! ### The whole transfer -/

/-- The words of the payload that are marked as capabilities. -/
def capWords (header : MessageHeader) : List Nat :=
  (List.range (min (header.payloadLength / WORD_SIZE) (XLEN * header.dataTypeMap.length))).filter
    (isCapWord header.dataTypeMap)

/-- The part of a transfer behind `transferFront`. -/
def transferBack (dst src : TaskPtr) (header : MessageHeader) : K Bool := do
  let words := min (header.payloadLength / WORD_SIZE) (XLEN * header.dataTypeMap.length)
  match ← transferMsgCaps dst src (List.range words) header.dataTypeMap with
  | none => return false
  | some dataTypeMap =>
    if dataTypeMap ≠ header.dataTypeMap then
      if ← writeMessageHeader src { header with dataTypeMap := dataTypeMap } then
        modify fun k => k.record (.deliver dst src)
        return true
      else return false
    else
      modify fun k => k.record (.deliver dst src)
      return true

theorem Still.tasks (hs : Still k k') : k'.tasks = k.tasks := by
  rw [hs]

/-- A message in memory is transferred by the two parts. -/
theorem transfer_splits (hlong : (k.tasks src).ipcMsgState = .longSize) :
    ipcTransferIpcMsg dst src (.debug config) k = (transferFront dst src >>= fun r =>
      match r with
      | none => return false
      | some header => transferBack dst src header) (.debug config) k := by
  unfold ipcTransferIpcMsg transferFront
  rw [Prog.bind_assoc]
  -- Up to the words the two programs are the same, call by call.
  refine Prog.bind_congr fun _ k₁ hrun₁ => ?_
  have h₁ : Still k k₁ := wp_ok (keeps_checkReceiver dst (.debug config) k) hrun₁
  rw [Prog.bind_assoc]
  refine Prog.bind_congr fun srcHeader k₂ hrun₂ => ?_
  have h₂ := h₁.trans (wp_ok (Still.keeps_sourceHeader src (.debug config) k₁) hrun₂)
  cases srcHeader with
  | none => rfl
  | some srcHeader =>
    dsimp only
    rw [Prog.bind_assoc]
    refine Prog.bind_congr fun dstHeader k₃ hrun₃ => ?_
    have h₃ : Still k k₃ := h₂.trans (wp_ok (keeps_readMessageHeader dst (.debug config) k₂) hrun₃)
    cases dstHeader with
    | none => rfl
    | some dstHeader =>
      dsimp only
      by_cases hfits : dstHeader.payloadCapacity < srcHeader.payloadLength
      · rw [if_pos hfits, if_pos hfits]
        rfl
      · rw [if_neg hfits, if_neg hfits, Prog.bind_assoc]
        refine Prog.bind_congr fun _ _ hask => ?_
        obtain ⟨rfl, rfl⟩ := Outcome.ok.inj hask
        rw [Prog.bind_assoc]
        refine Prog.bind_congr fun _ _ hget => ?_
        obtain ⟨rfl, rfl⟩ := Outcome.ok.inj hget
        rw [Prog.bind_assoc]
        refine Prog.bind_congr fun _ _ hget => ?_
        obtain ⟨rfl, rfl⟩ := Outcome.ok.inj hget
        rw [Prog.bind_assoc]
        refine Prog.bind_congr fun written k₄ hrun₄ => ?_
        have h₄ : Still k k₄ := h₃.trans (wp_ok
          (keeps_writeMessageHeader Still.storeBytes dst _ (.debug config) _) hrun₄)
        have hlong₄ : (k₄.tasks src).ipcMsgState = .longSize := by rw [h₄.tasks, hlong]
        by_cases hwritten : written = true
        · rw [if_pos hwritten, if_pos hwritten]
          unfold transferPayload
          rw [Prog.bind_assoc, Prog.bind_assoc]
          refine Prog.bind_congr fun _ _ hget => ?_
          obtain ⟨rfl, rfl⟩ := Outcome.ok.inj hget
          dsimp only
          -- The sender is still one with a message in memory: no call before has changed a task.
          rw [hlong₄, if_pos rfl]
          unfold transferLongPayload
          rw [Prog.bind_assoc, Prog.bind_assoc]
          refine Prog.bind_congr fun _ _ hask => ?_
          obtain ⟨rfl, rfl⟩ := Outcome.ok.inj hask
          rw [Prog.bind_assoc, Prog.bind_assoc]
          refine Prog.bind_congr fun _ _ hget => ?_
          obtain ⟨rfl, rfl⟩ := Outcome.ok.inj hget
          rw [Prog.bind_assoc, Prog.bind_assoc]
          refine Prog.bind_congr fun _ _ hget => ?_
          obtain ⟨rfl, rfl⟩ := Outcome.ok.inj hget
          dsimp only
          rw [Prog.bind_assoc, Prog.bind_assoc]
          refine Prog.bind_congr fun forwarded k₅ _ => ?_
          by_cases hforwarded : forwarded = true
          · rw [if_pos hforwarded, if_pos hforwarded]
            show _ = transferBack dst src srcHeader (.debug config) k₅
            unfold transferBack
            rw [Prog.bind_assoc]
            refine Prog.bind_congr fun map k₆ _ => ?_
            cases map with
            | none => rfl
            | some map =>
              dsimp only
              by_cases hmap : map ≠ srcHeader.dataTypeMap
              · rw [if_pos hmap, if_pos hmap]
              · rw [if_neg hmap, if_neg hmap]
                rfl
          · rw [if_neg hforwarded, if_neg hforwarded]
            rfl
        · rw [if_neg hwritten, if_neg hwritten]
          rfl

/-! ### The claim -/

/-- The transfer succeeds, and all marked words have gone over, or it fails, and every capability
is where it was. -/
def AllOrNone (config : Config) (k : Kernel) (dst src : TaskPtr) : Prop :=
  (∃ header k₁ k₂ k', transferFront dst src (.debug config) k = .ok (some header) k₁ ∧
    AllWent config dst src (capWords header) k₁ k₂ ∧
    ipcTransferIpcMsg dst src (.debug config) k = .ok true k' ∧ k'.cap = k₂.cap) ∨
  ∃ k', ipcTransferIpcMsg dst src (.debug config) k = .ok false k' ∧ k'.cap = k.cap

/-- The map of the words that were handed over can be stored in the header of the sender. -/
def HeaderGoes (config : Config) (k : Kernel) (dst src : TaskPtr) (header : MessageHeader) : Prop :=
  ∀ map k', transferMsgCaps dst src (List.range (min (header.payloadLength / WORD_SIZE)
      (XLEN * header.dataTypeMap.length))) header.dataTypeMap (.debug config) k
      = .ok (some map) k' → map ≠ header.dataTypeMap →
    ∃ k'', writeMessageHeader src { header with dataTypeMap := map } (.debug config) k'
      = .ok true k''

/-- Nothing fails behind the first word: the transfer fails in front of it or refuses it, or the
marked words can all go over, and so can the header. -/
def FailsFirst (config : Config) (k : Kernel) (dst src : TaskPtr) : Prop :=
  ∃ r k₁, transferFront dst src (.debug config) k = .ok r k₁ ∧ ∀ header, r = some header →
    (AllGo config dst src (capWords header) k₁ ∧ HeaderGoes config k₁ dst src header) ∨
    ∃ i rest, capWords header = i :: rest ∧ Refused config k₁ dst src i

theorem keeps_transferFront (dst src : TaskPtr) : Keeps Still (transferFront dst src) := by
  unfold transferFront
  refine keeps_bind (keeps_checkReceiver dst) fun _ => ?_
  refine keeps_bind (Still.keeps_sourceHeader src) fun srcHeader => ?_
  cases srcHeader with
  | none => exact keeps_pure _
  | some srcHeader =>
    refine keeps_bind (keeps_readMessageHeader dst) fun dstHeader => ?_
    cases dstHeader with
    | none => exact keeps_pure _
    | some dstHeader =>
      refine keeps_ite (keeps_pure _) ?_
      refine keeps_bind keeps_ask fun _ => keeps_bind keeps_get fun _ => keeps_bind keeps_get fun _ => ?_
      refine keeps_bind (keeps_writeMessageHeader Still.storeBytes dst _) fun _ => ?_
      refine keeps_ite (keeps_bind keeps_get fun _ => keeps_ite ?_ (keeps_pure _)) (keeps_pure _)
      refine keeps_bind keeps_ask fun _ => keeps_bind keeps_get fun _ => keeps_bind keeps_get fun _ => ?_
      refine keeps_bind (keeps_forwardUserMemory Still.storeBytes _ _ _ _ _) fun _ => ?_
      exact keeps_ite (keeps_pure _) (keeps_pure _)

theorem SpacesApart.still (h : SpacesApart k dst src) (hs : Still k k') :
    SpacesApart k' dst src := by
  rw [hs]
  exact h

/-- The transfer from the words on. -/
theorem transferBack_all_or_none_iff {header : MessageHeader} (h : StoreInv k ∅)
    (hbound : WORD_SIZE < config.loopBound) (hapart : SpacesApart k dst src) :
    ((∃ k₂ k', AllWent config dst src (capWords header) k k₂ ∧
        transferBack dst src header (.debug config) k = .ok true k' ∧ k'.cap = k₂.cap) ∨
      ∃ k', transferBack dst src header (.debug config) k = .ok false k' ∧ k'.cap = k.cap) ↔
    (AllGo config dst src (capWords header) k ∧ HeaderGoes config k dst src header) ∨
      ∃ i rest, capWords header = i :: rest ∧ Refused config k dst src i := by
  have hcases := @wp_transferMsgCaps_cases config k dst src (List.range
    (min (header.payloadLength / WORD_SIZE) (XLEN * header.dataTypeMap.length)))
    header.dataTypeMap h hbound List.nodup_range
  have hgone : AllGo config dst src (capWords header) k →
      ∀ i rest, capWords header = i :: rest → ¬ Refused config k dst src i := by
    intro hgo i rest hwords
    rw [hwords] at hgo
    obtain ⟨bytes, x, hread, hfound, hx⟩ := hgo.1
    exact Names.not_refused ⟨hread, hfound⟩ hx
  cases hrun : transferMsgCaps dst src (List.range (min (header.payloadLength / WORD_SIZE)
      (XLEN * header.dataTypeMap.length))) header.dataTypeMap (.debug config) k with
  -- A word stops the kernel: neither side of the equivalence holds.
  | stop e k₁ =>
    obtain ⟨hgo, hrefused⟩ := wp_stopped hcases hrun
    have hback : transferBack dst src header (.debug config) k = .stop e k₁ := bind_of_stop hrun
    constructor
    · rintro (⟨k₂, k', -, hrun', -⟩ | ⟨k', hrun', -⟩)
      · exact nomatch hback.symm.trans hrun'
      · exact nomatch hback.symm.trans hrun'
    · rintro (⟨hgo', -⟩ | ⟨i, rest, hwords, hrefused'⟩)
      · exact absurd hgo' hgo
      · exact absurd hrefused' (hrefused i rest hwords)
  | ok r k₁ =>
    rcases wp_ok hcases hrun with ⟨rfl, hgo, hwent⟩ | ⟨rfl, hgo, hstill⟩
    · generalize hmap : ((List.range (min (header.payloadLength / WORD_SIZE)
        (XLEN * header.dataTypeMap.length))).filter (isCapWord header.dataTypeMap)).foldl
        clearCapWord header.dataTypeMap = map at hrun
      have hrest : transferBack dst src header (.debug config) k = _ := bind_of_ok hrun
      dsimp only at hrest
      by_cases hsame : map ≠ header.dataTypeMap
      · rw [if_pos hsame] at hrest
        -- The map has changed, so there was a marked word, and its capability has gone over.
        have hwords : ∃ i rest, capWords header = i :: rest := by
          cases hwords : capWords header with
          | nil =>
            refine absurd ?_ hsame
            rw [← hmap]
            change (capWords header).foldl clearCapWord header.dataTypeMap = _
            rw [hwords]
            rfl
          | cons i rest => exact ⟨i, rest, rfl⟩
        obtain ⟨i, rest, hwords⟩ := hwords
        have hchanged := wp_ok
          (wp_transferMsgCaps_changed h hbound hapart hwords (hgone hgo i rest hwords)) hrun
        have hnot : ¬ ∃ i rest, capWords header = i :: rest ∧ Refused config k dst src i :=
          fun ⟨i', rest', hwords', hrefused⟩ => hgone hgo i' rest' hwords' hrefused
        cases hwrite : writeMessageHeader src { header with dataTypeMap := map } (.debug config) k₁ with
        | stop e k₂ =>
          have hback := hrest.trans (bind_of_stop hwrite)
          constructor
          · rintro (⟨k₃, k', -, hrun', -⟩ | ⟨k', hrun', -⟩)
            · exact nomatch hback.symm.trans hrun'
            · exact nomatch hback.symm.trans hrun'
          · rintro (⟨-, hheader⟩ | hrefused)
            · obtain ⟨k₃, hwrite'⟩ := hheader map k₁ hrun hsame
              exact nomatch hwrite.symm.trans hwrite'
            · exact absurd hrefused hnot
        | ok success k₂ =>
          have hcap : k₂.cap = k₁.cap :=
            (wp_ok (keeps_writeMessageHeader Still.storeBytes src _ (.debug config) k₁) hwrite).cap
          have hback := hrest.trans (bind_of_ok hwrite)
          -- Only the store of the header is left. If it fails, the capabilities are gone anyway.
          cases success with
          | true =>
            refine ⟨fun _ => Or.inl ⟨hgo, fun map' k' hrun' _ => ?_⟩, fun _ => ?_⟩
            · rw [hrun] at hrun'
              obtain ⟨hmap', rfl⟩ := Outcome.ok.inj hrun'
              obtain rfl := Option.some.inj hmap'
              exact ⟨k₂, hwrite⟩
            · exact Or.inl ⟨k₁, _, hwent, hback, hcap⟩
          | false =>
            constructor
            · rintro (⟨k₃, k', -, hrun', -⟩ | ⟨k', hrun', hcap'⟩)
              · exact nomatch hback.symm.trans hrun'
              · obtain ⟨-, rfl⟩ := Outcome.ok.inj (hback.symm.trans hrun')
                exact absurd (hcap.symm.trans hcap') hchanged
            · rintro (⟨-, hheader⟩ | hrefused)
              · obtain ⟨k₃, hwrite'⟩ := hheader map k₁ hrun hsame
                exact nomatch hwrite.symm.trans hwrite'
              · exact absurd hrefused hnot
      · rw [if_neg hsame] at hrest
        refine ⟨fun _ => Or.inl ⟨hgo, fun map' k' hrun' hne => ?_⟩,
          fun _ => Or.inl ⟨k₁, _, hwent, hrest, rfl⟩⟩
        rw [hrun] at hrun'
        obtain ⟨hmap', -⟩ := Outcome.ok.inj hrun'
        exact absurd hne (Option.some.inj hmap' ▸ hsame)
    · have hback : transferBack dst src header (.debug config) k = .ok false k₁ := bind_of_ok hrun
      constructor
      · rintro (⟨k₂, k', -, hrun', -⟩ | ⟨k', hrun', hcap⟩)
        · exact nomatch hback.symm.trans hrun'
        · obtain ⟨-, rfl⟩ := Outcome.ok.inj (hback.symm.trans hrun')
          cases hwords : capWords header with
          | nil =>
            refine absurd ?_ hgo
            show AllGo config dst src (capWords header) k
            rw [hwords]
            trivial
          | cons i rest =>
            refine Or.inr ⟨i, rest, rfl, ?_⟩
            -- If the first word was not refused its capability has gone over, and stays there.
            by_contra hfirst
            exact wp_ok (wp_transferMsgCaps_changed h hbound hapart hwords hfirst) hrun hcap
      · rintro (⟨hgo', -⟩ | ⟨i, rest, hwords, hrefused⟩)
        · exact absurd hgo' hgo
        · exact Or.inr ⟨k₁, hback, (hstill i rest hwords hrefused).cap⟩

/-- A header of four bytes: the type, the capacity, the length and the map of the payload. -/
def byteHeader : Config where
  loopBound := 16
  kiloPage := 0
  messageHeaderSize := 4
  decodeHeader bytes := ⟨(bytes.getD 0 0).toNat, 0, 0, (bytes.getD 1 0).toNat,
    (bytes.getD 2 0).toNat, [(bytes.getD 3 0).toNat, 0]⟩
  encodeHeader header := [.ofNat header.msgType, .ofNat header.payloadCapacity,
    .ofNat header.payloadLength, .ofNat (header.dataTypeMap.getD 0 0)]
  msgTypeIpc := 0
  msgTypeKill := 1

/-- A sender or a receiver of a message at the start of its address space. -/
def messageTask (root : TablePtr) : Task :=
  { Task.zero with
    rootPageTable := root, state := .running, ipcMsg := [0], ipcMsgState := .longSize }

/-- The sender 1 has a message of one word for the receiver 2. The map of its header is `map`. -/
def messageKernel (map : UInt8) : Kernel :=
  { (Kernel.powerOn.setTask 1 (messageTask 0x1000)).setTask 2 (messageTask 0x4000) with
    pageTables := fun table index =>
      if index ≠ 0 then Pte.zero
      else if table = 0x1000 then Pte.zero.fill .table 0x2000
      else if table = 0x2000 then Pte.zero.fill .table 0x3000
      else if table = 0x3000 then Pte.zero.fill (.userPage true true false) 0x10000
      else if table = 0x4000 then Pte.zero.fill .table 0x5000
      else if table = 0x5000 then Pte.zero.fill .table 0x6000
      else if table = 0x6000 then Pte.zero.fill (.userPage true true false) 0x20000
      else Pte.zero
    memory := fun a =>
      if a = 0x10001 ∨ a = 0x10002 ∨ a = 0x20001 then 8
      else if a = 0x10003 then map
      else 0 }

theorem messageKernel_inv (map : UInt8) : StoreInv (messageKernel map) ∅ := by
  have hsender : StoreInv (Kernel.powerOn.setTask 1 (messageTask 0x1000)) ∅ :=
    powerOn_inv.1.startTask rfl rfl rfl
  have hreceiver : StoreInv ((Kernel.powerOn.setTask 1 (messageTask 0x1000)).setTask 2
      (messageTask 0x4000)) ∅ := hsender.startTask rfl rfl rfl
  have hframe : StoreFrame ((Kernel.powerOn.setTask 1 (messageTask 0x1000)).setTask 2
      (messageTask 0x4000)) (messageKernel map) :=
    ⟨rfl, rfl, fun _ => rfl, fun _ => rfl, fun _ => Iff.rfl⟩
  exact hframe.storeInv hreceiver

theorem messageKernel_apart (map : UInt8) : SpacesApart (messageKernel map) 2 1 := by
  intro desc x hx
  have hnone : (messageKernel map).findCap 1 desc = none := if_pos (Or.inr (Nat.zero_le _))
  exact nomatch hnone.symm.trans hx

end Caprese
