import Caprese.Proofs.Rendezvous

/-!
# `Caprese.Proofs.Failure`: what is left of a message that could not be handed over

A transfer that fails has changed nothing but memory, unless it had handed over a capability
before (`wp_ipcTransferIpcMsg_still`). Of the operations around it, `ipc_send_long` and
`ipc_reply` store to their partner behind the transfer only, so that they can be tried again.
`ipc_call` has declared its caller waiting by then, and `ipc_receive` has taken the sender out of
its queue (`failed_transfer_undone`).
-/

set_option autoImplicit false

namespace Caprese

open Lib Prog

variable {env : Env} {k k' k₁ : Kernel} {dst src task : TaskPtr} {e : EndpointPtr} {msg : Nat}

/-! ### Transfers that fail -/

/-- Nothing but bytes of the memory and the error code has changed. -/
def Still (k k' : Kernel) : Prop := k' = { k with memory := k'.memory, errno := k'.errno }

namespace Still

theorem refl (k : Kernel) : Still k k := rfl

theorem trans {k'' : Kernel} (h : Still k k') (h' : Still k' k'') : Still k k'' := by
  unfold Still at h h' ⊢
  refine h'.trans ?_
  rw [h]

instance : IsPreorder Kernel Still where
  refl := refl
  trans _ _ _ := trans

theorem storeBytes (k : Kernel) (addr : Nat) (bytes : List UInt8) :
    Still k (k.storeBytes addr bytes) := rfl

theorem keeps_setErrno (e : SysError) : Keeps Still (setErrno e) := keeps_modify fun _ => rfl

theorem keeps_fail {α : Type} (e : SysError) (a : α) :
    Keeps Still (do setErrno e; return a : K α) :=
  keeps_bind (keeps_setErrno e) fun _ => keeps_pure a

theorem keeps_sourceHeader (src : TaskPtr) : Keeps Still (sourceHeader src) := by
  refine keeps_bind keeps_get fun k => ?_
  dsimp only
  cases (k.tasks src).ipcMsgState with
  | empty => exact keeps_pure _
  | shortSize => exact keeps_pure _
  | longSize => exact keeps_readMessageHeader _

end Still

/-- A frame condition in a proof about a run that is known. -/
theorem wp_keeps {α : Type} {R : Kernel → Kernel → Prop} {m : K α} (h : Keeps R m)
    {Q : α → Kernel → Prop} {E : Stop → Kernel → Prop}
    (hQ : ∀ a k', R k k' → m env k = .ok a k' → Q a k') (hE : ∀ s k', E s k') :
    wp m env Q E k :=
  wp_mono (wp_self (h env k)) (fun a k' hk' => hQ a k' hk'.1 hk'.2) fun s k' _ => hE s k'

/-- A slot whose capability can be handed over to a task that has room for it. -/
structure Givable (k : Kernel) (dst : TaskPtr) (slot : SlotPtr) : Prop where
  owner : ∃ owner, k.slotTask slot = some owner ∧ ¬ isDead (k.tasks owner)
  free : ¬ isFixed (k.cap slot)
  alive : ¬ isDead (k.tasks dst)
  room : (k.tasks dst).freeSlots ≠ none

/-- `insert_cap` fails without an effect where there is no room. -/
theorem wp_insertCap_full {cap : Capability} {Q : Option SlotPtr → Kernel → Prop}
    {E : Stop → Kernel → Prop} (hfull : (k.tasks dst).freeSlots = none)
    (hQ : ∀ k', Still k k' → Q none k') : wp (insertCap dst cap) env Q E k := by
  unfold insertCap
  rw [wp_bind, wp_get]
  dsimp only
  rw [wp_ite]
  split
  · exact hQ _ rfl
  · unfold popFreeSlots
    rw [wp_bind, wp_bind, wp_get, hfull]
    exact hQ _ rfl

/-- What `transfer_cap` and `delegate_cap` have in common: there is nothing to undo unless the
capability can be handed over. -/
theorem wp_give_still {s : SlotPtr} {tail : TaskPtr → SlotPtr → K (Option SlotPtr)} :
    wp (do
      let owner ← deref ((← get).slotTask s)
      if isFixed ((← get).cap s) then
        setErrno .eCapType
        return none
      if isDead ((← get).tasks dst) then
        setErrno .eIllState
        return none
      if isDead ((← get).tasks owner) then
        setErrno .eIllState
        return none
      match ← insertCap dst ((← get).cap s) with
      | none => return none
      | some dstSlot => tail owner dstSlot) env
    (fun r k' => (r = none ∧ Still k k') ∨ Givable k dst s) (fun _ _ => True) k := by
  rw [wp_bind, wp_get, wp_bind]
  cases howner : k.slotTask s with
  | none => trivial
  | some owner =>
    rw [wp_deref]
    dsimp only
    rw [wp_bind, wp_get, wp_ite]
    split
    · exact Or.inl ⟨rfl, rfl⟩
    · rename_i hfree
      rw [wp_bind, wp_get, wp_ite]
      split
      · exact Or.inl ⟨rfl, rfl⟩
      · rename_i halive
        rw [wp_bind, wp_get, wp_ite]
        split
        · exact Or.inl ⟨rfl, rfl⟩
        · rename_i howns
          by_cases hroom : (k.tasks dst).freeSlots = none
          · rw [wp_bind, wp_get, wp_bind]
            exact wp_insertCap_full hroom fun k' hk' => Or.inl ⟨rfl, hk'⟩
          · exact wp_any (fun _ _ => Or.inr ⟨⟨owner, howner, howns⟩, hfree, halive, hroom⟩)
              fun _ _ => trivial

theorem wp_transferCap_still {slot : Option SlotPtr} : wp (transferCap dst slot) env
    (fun r k' => (r = none ∧ Still k k') ∨ ∃ s, slot = some s ∧ Givable k dst s)
    (fun _ _ => True) k := by
  unfold transferCap
  rw [wp_bind]
  refine wp_keeps (R := Eq) (keeps_kassert _) (fun _ k' hk' _ => ?_) fun _ _ => trivial
  subst hk'
  cases slot with
  | none => trivial
  | some s =>
    refine wp_mono wp_give_still (fun r k' h => ?_) fun _ _ h => h
    exact h.imp_right fun hs => ⟨s, rfl, hs⟩

theorem wp_delegateCap_still {slot : Option SlotPtr} : wp (delegateCap dst slot) env
    (fun r k' => (r = none ∧ Still k k') ∨ ∃ s, slot = some s ∧ Givable k dst s)
    (fun _ _ => True) k := by
  unfold delegateCap
  cases slot with
  | none => trivial
  | some s =>
    refine wp_mono wp_give_still (fun r k' h => ?_) fun _ _ h => h
    exact h.imp_right fun hs => ⟨s, rfl, hs⟩

/-- `lookup_cap` leaves an error code behind, where it finds nothing. -/
theorem wp_lookupCap_still {desc : Nat} : wp (lookupCap task desc) env
    (fun r k' => Still k k' ∧ ∀ s, r = some s → k' = k) (fun _ _ => True) k := by
  have hfail : ∀ (e : SysError), wp (do setErrno e; return none : K (Option SlotPtr)) env
      (fun r k' => Still k k' ∧ ∀ s, r = some s → k' = k) (fun _ _ => True) k := fun e =>
    ⟨rfl, fun s hs => absurd hs (by simp)⟩
  have hwalk : ∀ va levels table, Keeps Eq (walkMapped va levels table) := by
    intro va levels
    induction levels with
    | nil => exact fun _ => keeps_pure _
    | cons level levels ih =>
      intro table
      refine keeps_bind (keeps_pageTableWalk _ _) fun _ => keeps_bind keeps_get fun _ => ?_
      exact keeps_ite (keeps_pure _) (ih _)
  unfold lookupCap
  rw [wp_bind, wp_get]
  dsimp only
  rw [wp_ite]
  split
  · exact hfail _
  · rw [wp_ite]
    split
    · exact hfail _
    · rw [wp_bind]
      refine (hwalk _ _ _).wp (fun found k' hk' => ?_) fun _ _ _ => trivial
      subst hk'
      cases found with
      | none => exact hfail _
      | some space =>
        rw [wp_bind, wp_get, wp_ite]
        split
        · exact hfail _
        · exact ⟨rfl, fun _ _ => rfl⟩

/-- The word of the payload that names a capability which can be handed over. -/
def GivesCap (env : Env) (k : Kernel) (dst src : TaskPtr) (i : Nat) : Prop :=
  ∃ bytes slot, readUserMemory src ((k.tasks src).ipcLongMsg
      + (env.config.messageHeaderSize + WORD_SIZE * i)) WORD_SIZE env k = .ok (some bytes) k ∧
    lookupCap src (bytesWord bytes % 2 ^ 63) env k = .ok (some slot) k ∧ Givable k dst slot

theorem wp_transferMsgCap_still {i : Nat} : wp (transferMsgCap dst src i) env
    (fun success k' => (success = false ∧ Still k k') ∨ GivesCap env k dst src i)
    (fun _ _ => True) k := by
  unfold transferMsgCap
  rw [wp_bind, wp_ask, wp_bind, wp_get, wp_bind]
  refine wp_keeps (R := Eq) (keeps_readUserMemory _ _ _) (fun bytes k₁ hk₁ hread => ?_)
    fun _ _ => trivial
  subst hk₁
  cases bytes with
  | none => exact Or.inl ⟨rfl, rfl⟩
  | some bytes =>
    dsimp only
    rw [wp_bind]
    refine wp_mono (wp_self wp_lookupCap_still) (fun slot k₂ h => ?_) fun _ _ _ => trivial
    obtain ⟨⟨hstill, hsame⟩, hlookup⟩ := h
    -- Both ways to hand a capability over fail without effect, or there is one to be had.
    have hend : ∀ (give : K (Option SlotPtr)), wp give env (fun r k' => (r = none ∧ Still k₂ k') ∨
        ∃ s, slot = some s ∧ Givable k₂ dst s) (fun _ _ => True) k₂ →
        wp (do
          match ← give with
          | none => return false
          | some dstSlot => do
            let dstCapDesc ← getCapSlotIndex dstSlot
            writeUserMemory dst (wordBytes dstCapDesc) (((← get).tasks dst).ipcLongMsg
              + (env.config.messageHeaderSize + WORD_SIZE * i))) env
          (fun success k' => (success = false ∧ Still k k') ∨ GivesCap env k dst src i)
          (fun _ _ => True) k₂ := by
      intro give hgive
      rw [wp_bind]
      refine wp_mono hgive (fun r k₃ h₃ => ?_) fun _ _ _ => trivial
      rcases h₃ with ⟨rfl, hstill'⟩ | ⟨s, hs, hgivable⟩
      · exact Or.inl ⟨rfl, hstill.trans hstill'⟩
      · have hk₂ := hsame s hs
        subst hk₂
        rw [hs] at hlookup
        exact wp_any (fun _ _ => Or.inr ⟨bytes, s, hread, hlookup, hgivable⟩) fun _ _ => trivial
    rw [wp_ite]
    split
    · exact hend _ wp_delegateCap_still
    · exact hend _ wp_transferCap_still

theorem wp_transferMsgCaps_still {is dataTypeMap : List Nat} :
    wp (transferMsgCaps dst src is dataTypeMap) env
      (fun _ k' => Still k k' ∨ ∃ i, is.find? (isCapWord dataTypeMap) = some i ∧
        GivesCap env k dst src i) (fun _ _ => True) k := by
  induction is with
  | nil => exact Or.inl rfl
  | cons i is ih =>
    unfold transferMsgCaps
    rw [wp_ite]
    split
    · rename_i hflag
      rw [wp_bind]
      refine wp_mono wp_transferMsgCap_still (fun success k' h => ?_) fun _ _ _ => trivial
      rcases h with ⟨rfl, hstill⟩ | hgives
      · exact Or.inl hstill
      · exact wp_any (fun _ _ => Or.inr ⟨i, List.find?_cons_of_pos hflag, hgives⟩) fun _ _ => trivial
    · rename_i hflag
      rw [List.find?_cons_of_neg hflag]
      exact ih

/-- The part of a transfer in front of the words of the payload, for a message in memory. -/
def transferFront (dst src : TaskPtr) : K (Option MessageHeader) := do
  checkReceiver dst
  match ← sourceHeader src with
  | none => return none
  | some srcHeader =>
    match ← readMessageHeader dst with
    | none => return none
    | some dstHeader =>
      if dstHeader.payloadCapacity < srcHeader.payloadLength then return none
      let header := { dstHeader with
        msgType := (← ask).config.msgTypeIpc
        senderId := ((← get).tasks src).tid
        receiverId := ((← get).tasks dst).tid
        payloadLength := srcHeader.payloadLength
        dataTypeMap := srcHeader.dataTypeMap }
      if ← writeMessageHeader dst header then
        if ((← get).tasks src).ipcMsgState = .longSize then
          let size := (← ask).config.messageHeaderSize
          let dstMsg := ((← get).tasks dst).ipcLongMsg
          let srcMsg := ((← get).tasks src).ipcLongMsg
          if ← forwardUserMemory src dst (srcMsg + size) (dstMsg + size) srcHeader.payloadLength then
            return some srcHeader
          else return none
        else return none
      else return none

/-- The transfer gets to a word of the payload that names a capability, and hands this over. It
does so before it may fail. -/
def HandsOver (env : Env) (k : Kernel) (dst src : TaskPtr) : Prop :=
  ∃ header k₁ i, transferFront dst src env k = .ok (some header) k₁ ∧
    (List.range (min (header.payloadLength / WORD_SIZE) (XLEN * header.dataTypeMap.length))).find?
      (isCapWord header.dataTypeMap) = some i ∧ GivesCap env k₁ dst src i

/-- The payload of a message in memory, behind the header. -/
theorem wp_transferLongPayload_still {header : MessageHeader} :
    wp (transferLongPayload dst src header) env (fun success k' => success = false → Still k k' ∨
      ∃ k₁ i, forwardUserMemory src dst
          ((k.tasks src).ipcLongMsg + env.config.messageHeaderSize)
          ((k.tasks dst).ipcLongMsg + env.config.messageHeaderSize) header.payloadLength env k
          = .ok true k₁ ∧
        (List.range (min (header.payloadLength / WORD_SIZE)
          (XLEN * header.dataTypeMap.length))).find? (isCapWord header.dataTypeMap) = some i ∧
        GivesCap env k₁ dst src i) (fun _ _ => True) k := by
  unfold transferLongPayload
  rw [wp_bind, wp_ask, wp_bind, wp_get, wp_bind, wp_get]
  dsimp only
  rw [wp_bind]
  refine wp_keeps (keeps_forwardUserMemory Still.storeBytes _ _ _ _ _) (fun success k₁ h₁ hrun => ?_)
    fun _ _ => trivial
  rw [wp_ite]
  split
  · rename_i htrue
    rw [htrue] at hrun
    rw [wp_bind]
    refine wp_mono wp_transferMsgCaps_still (fun map k₂ h₂ => ?_) fun _ _ _ => trivial
    rcases h₂ with h₂ | ⟨i, hfirst, hgives⟩
    · have hstill := h₁.trans h₂
      cases map with
      | none => exact fun _ => Or.inl hstill
      | some map =>
        dsimp only
        rw [wp_ite]
        split
        · exact (keeps_writeMessageHeader Still.storeBytes _ _).wp
            (fun _ _ h₃ _ => Or.inl (hstill.trans h₃)) fun _ _ _ => trivial
        · exact fun _ => Or.inl hstill
    · exact wp_any (fun _ _ _ => Or.inr ⟨k₁, i, hrun, hfirst, hgives⟩) fun _ _ => trivial
  · exact fun _ => Or.inl h₁

/-- A transfer that fails has handed over a capability before, or has done nothing. -/
theorem wp_ipcTransferIpcMsg_still : wp (ipcTransferIpcMsg dst src) env
    (fun success k' => success = false → Still k k' ∨ HandsOver env k dst src)
    (fun _ _ => True) k := by
  unfold ipcTransferIpcMsg
  rw [wp_bind]
  refine wp_keeps (keeps_checkReceiver dst) (fun _ k₁ (h₁ : Still k k₁) hrun₁ => ?_) fun _ _ => trivial
  have hfront : transferFront dst src env k = _ := bind_of_ok hrun₁
  rw [wp_bind]
  refine wp_keeps (Still.keeps_sourceHeader src) (fun srcHeader k₂ h₂ hrun₂ => ?_) fun _ _ => trivial
  replace h₂ := h₁.trans h₂
  replace hfront := hfront.trans (bind_of_ok hrun₂)
  cases srcHeader with
  | none => exact fun _ => Or.inl h₂
  | some srcHeader =>
    dsimp only at hfront ⊢
    rw [wp_bind]
    refine wp_keeps (keeps_readMessageHeader dst) (fun dstHeader k₃ (h₃ : Still k₂ k₃) hrun₃ => ?_)
      fun _ _ => trivial
    replace h₃ := h₂.trans h₃
    replace hfront := hfront.trans (bind_of_ok hrun₃)
    cases dstHeader with
    | none => exact fun _ => Or.inl h₃
    | some dstHeader =>
      dsimp only at hfront ⊢
      rw [wp_ite]
      split
      · exact fun _ => Or.inl h₃
      · rename_i hfits
        rw [if_neg hfits] at hfront
        rw [wp_bind, wp_ask, wp_bind, wp_get, wp_bind, wp_get, wp_bind]
        replace hfront := hfront.trans (bind_of_ok rfl)
        replace hfront := hfront.trans (bind_of_ok rfl)
        replace hfront := hfront.trans (bind_of_ok rfl)
        refine wp_keeps (keeps_writeMessageHeader Still.storeBytes _ _) (fun written k₄ h₄ hrun₄ => ?_)
          fun _ _ => trivial
        replace h₄ := h₃.trans h₄
        replace hfront := hfront.trans (bind_of_ok hrun₄)
        rw [wp_ite]
        split
        · rename_i hwritten
          rw [if_pos hwritten] at hfront
          replace hfront := hfront.trans (bind_of_ok rfl)
          rw [wp_bind]
          unfold transferPayload
          rw [wp_bind, wp_get]
          dsimp only
          cases hstate : (k₄.tasks src).ipcMsgState with
          | empty => exact fun hfalse => absurd hfalse (by decide)
          | shortSize =>
            dsimp only
            rw [wp_bind, wp_get, wp_bind, wp_ask]
            refine (keeps_writeUserMemory Still.storeBytes _ _ _).wp (fun success k₅ h₅ => ?_)
              fun _ _ _ => trivial
            rw [wp_ite]
            split
            · exact fun hfalse => absurd hfalse (by decide)
            · exact fun _ => Or.inl (h₄.trans h₅)
          | longSize =>
            rw [if_pos hstate] at hfront
            replace hfront := hfront.trans (bind_of_ok rfl)
            replace hfront := hfront.trans (bind_of_ok rfl)
            replace hfront := hfront.trans (bind_of_ok rfl)
            refine wp_mono wp_transferLongPayload_still (fun success k₅ h₅ => ?_) fun _ _ _ => trivial
            rw [wp_ite]
            split
            · exact fun hfalse => absurd hfalse (by decide)
            · rename_i hfails
              refine fun _ => (h₅ (by simpa using hfails)).imp h₄.trans ?_
              rintro ⟨k₆, i, hforward, hfirst, hgives⟩
              exact ⟨srcHeader, k₆, i, hfront.trans (bind_of_ok hforward), hfirst, hgives⟩
        · exact fun _ => Or.inl h₄

/-! ### The operations around a transfer -/

/-- The state in which an operation other than `ipc_call` begins its transfer: the message of the
caller is pending. -/
def Kernel.pending (k : Kernel) (msg : Nat) : Kernel := k.mapTask k.currentTask (Task.longMsg msg)

theorem keeps_checkNotWaiting {R : Kernel → Kernel → Prop} [IsPreorder Kernel R] (task : TaskPtr) :
    Keeps R (checkNotWaiting task) := by
  unfold checkNotWaiting
  refine keeps_bind keeps_get fun _ => keeps_bind (keeps_kassert _) fun _ => ?_
  refine keeps_bind keeps_get fun _ => keeps_bind (keeps_kassert _) fun _ => ?_
  exact keeps_bind keeps_get fun _ => keeps_kassert _

theorem wp_ipcSendLong_still {blocking : Bool} {receiver : TaskPtr}
    (hfirst : (k.endpoints e).receiverQueue.head = some receiver) :
    wp (ipcSendLong blocking e msg) env (fun success k' => success = false →
      Still (k.pending msg) k' ∨ HandsOver env (k.pending msg) receiver k.currentTask)
      (fun _ _ => True) k := by
  unfold ipcSendLong
  rw [wp_bind, wp_get, wp_bind]
  refine (keeps_checkNotWaiting (R := Eq) _).wp (fun _ k' hk' => ?_) fun _ _ _ => trivial
  subst hk'
  unfold modifyTask
  rw [wp_bind, wp_modify]
  show wp _ env _ _ (k.pending msg)
  rw [wp_bind, wp_get]
  have hhead : ((k.pending msg).endpoints e).receiverQueue.head = some receiver := hfirst
  rw [hhead]
  dsimp only
  rw [wp_bind, wp_get, wp_bind]
  refine (keeps_kassert (R := Eq) _).wp (fun _ k' hk' => ?_) fun _ _ _ => trivial
  subst hk'
  rw [wp_bind]
  refine wp_mono wp_ipcTransferIpcMsg_still (fun success k' h => ?_) fun _ _ _ => trivial
  rw [wp_ite]
  split
  · -- The message was handed over, so the operation does not fail.
    rw [wp_bind]
    refine wp_any (fun _ k₁ => ?_) fun _ _ => trivial
    rw [wp_bind, wp_modify, wp_bind]
    exact wp_any (fun _ k₂ hfalse => absurd hfalse (by decide)) fun _ _ => trivial
  · rename_i hfails
    exact fun _ => h (by simpa using hfails)

theorem wp_ipcReply_still {caller : TaskPtr}
    (hcaller : (k.tasks k.currentTask).callerTask = some caller) :
    wp (ipcReply e msg) env (fun success k' => success = false →
      Still (k.pending msg) k' ∨ HandsOver env (k.pending msg) caller k.currentTask)
      (fun _ _ => True) k := by
  unfold ipcReply
  rw [wp_bind, wp_get, wp_bind, wp_get, hcaller]
  dsimp only
  rw [wp_bind, wp_get, wp_bind]
  refine wp_kassert_any ?_
  rw [wp_bind]
  refine wp_kassert_any ?_
  rw [wp_bind]
  refine wp_kassert_any ?_
  rw [wp_bind]
  refine wp_kassert_any ?_
  rw [wp_bind]
  refine wp_kassert_any ?_
  rw [wp_bind]
  refine wp_kassert_any ?_
  unfold modifyTask
  rw [wp_bind, wp_modify]
  show wp _ env _ _ (k.pending msg)
  rw [wp_bind]
  refine wp_mono wp_ipcTransferIpcMsg_still (fun success k' h => ?_) fun _ _ _ => trivial
  rw [wp_ite]
  split
  · rw [wp_bind, wp_modify, wp_bind, wp_modify, wp_bind]
    exact wp_any (fun _ k₂ hfalse => absurd hfalse (by decide)) fun _ _ => trivial
  · rename_i hfails
    exact fun _ => h (by simpa using hfails)

/-- Nothing has changed but memory, the error code and the pending message of the caller, which
is running. -/
structure AsBefore (k k' : Kernel) : Prop where
  still : ∃ msg msgState, Still
    (k.mapTask k.currentTask fun t => { t with ipcMsg := msg, ipcMsgState := msgState }) k'
  running : (k'.tasks k.currentTask).state = .running

/-- The partner of an operation that transfers a message at once. -/
def Op.partner (k : Kernel) : Op → Option TaskPtr
  | .sendLong _ e _ | .call e _ => (k.endpoints e).receiverQueue.head
  | .receive _ e _ => (k.endpoints e).senderQueue.head
  | .reply _ _ => (k.tasks k.currentTask).callerTask
  | _ => none

/-- The operation has left the state as it was, where `ipc_receive` has given up the caller that
it had not answered. -/
def Undone (env : Env) (k : Kernel) (op : Op) (k' : Kernel) : Prop :=
  match op with
  | .receive _ e msg => ∃ k₁, ipcAbandonCaller e env (k.pending msg) = .ok () k₁ ∧ AsBefore k₁ k'
  | _ => AsBefore k k'

/-- The message of the operations that store to their partner behind the transfer only. -/
def Op.lateMsg : Op → Option Nat
  | .sendLong _ _ msg | .reply _ msg => some msg
  | _ => none

theorem asBefore_of_still (hrunning : (k.tasks k.currentTask).state = .running)
    (h : Still (k.pending msg) k') : AsBefore k k' := by
  refine ⟨⟨(k.tasks k.currentTask).setIpcLongMsg msg |>.ipcMsg, .longSize, h⟩, ?_⟩
  rw [h]
  show (upd k.tasks k.currentTask _ k.currentTask).state = .running
  rw [upd_same]
  exact hrunning

theorem undone_of_late {c c' : Core} {op : Op} {partner : TaskPtr}
    (hrunning : (c.kernel.tasks c.kernel.currentTask).state = .running)
    (hpartner : op.partner c.kernel = some partner) (hmsg : op.lateMsg = some msg)
    (hkeeps : ¬ HandsOver env (c.kernel.pending msg) partner c.kernel.currentTask)
    (hrun : op.serve env c.kernel = .ok false c'.kernel) : Undone env c.kernel op c'.kernel := by
  cases op with
  | sendLong blocking e msg' =>
    obtain rfl : msg' = msg := Option.some.inj hmsg
    have hend := wp_ok (wp_ipcSendLong_still hpartner) hrun rfl
    exact asBefore_of_still hrunning (hend.resolve_right hkeeps)
  | reply e msg' =>
    obtain rfl : msg' = msg := Option.some.inj hmsg
    have hend := wp_ok (wp_ipcReply_still hpartner) hrun rfl
    exact asBefore_of_still hrunning (hend.resolve_right hkeeps)
  | _ => exact absurd hmsg (by simp [Op.lateMsg])

theorem AsBefore.queue {k₁ : Kernel} (h : AsBefore k₁ k') (side : QueueSide) {l : List TaskPtr}
    (hl : Queue.Rep k₁.waitingLinks ((k₁.endpoints e).queue side) l) :
    Queue.Rep k'.waitingLinks ((k'.endpoints e).queue side) l := by
  obtain ⟨msg, msgState, hstill⟩ := h.still
  have htasks : k'.tasks = upd k₁.tasks k₁.currentTask
      { k₁.tasks k₁.currentTask with ipcMsg := msg, ipcMsgState := msgState } := by
    rw [hstill]
    rfl
  have hlinks : k'.waitingLinks = k₁.waitingLinks := by
    unfold Kernel.waitingLinks
    congr 1 <;>
    · funext t
      rw [htasks, upd_apply]
      split
      · rename_i ht
        rw [ht]
      · rfl
  have hendpoints : k'.endpoints = k₁.endpoints := by
    rw [hstill]
    rfl
  rw [hlinks, hendpoints]
  exact hl

/-- `ipc_call` leaves its caller waiting, and `ipc_receive` the sender in no queue. -/
theorem Disciplined.not_undone {N : Desk.Allows} {ok : Kernel → Move → Prop} {c c' : Core} {op : Op}
    {partner : TaskPtr} (hok : Admits env N ok) (h : Disciplined N c)
    (hop : ok c.kernel (.invoke op)) (hstep : CoreStep env c (.invoke op, some false) c')
    (hpartner : op.partner c.kernel = some partner) (hlate : op.lateMsg = none) :
    ¬ Undone env c.kernel op c'.kernel := by
  obtain ⟨A, B, hA, hI, hu, hB, he, -⟩ := h.invoke hok hop hstep
  cases op with
  | call e msg =>
    intro hundone
    have hrunning := hundone.running
    cases he with
    | fail =>
      rw [hA.current, hB.state] at hrunning
      change ((A.mapTask A.current (Task.callMsg e msg)).tasks A.current).state = .running at hrunning
      rw [Desk.mapTask_tasks, if_pos rfl] at hrunning
      exact absurd hrunning nofun
  | receive blocking e msg =>
    rintro ⟨k₁, habandon, hbefore⟩
    have hS : (A.stores (Task.longMsg msg)).Inv N := hI.store hu hu.callee rfl hu.notReady
    have h₁ : Shows (c.kernel.pending msg) (A.stores (Task.longMsg msg)) := by
      unfold Kernel.pending Desk.stores
      rw [hA.current]
      exact hA.mapTask fun _ => ⟨rfl, rfl, rfl, rfl, rfl⟩
    have h₂ : Shows k₁ (A.stores (Task.longMsg msg)).abandon := by
      refine wp_ok (Q := fun _ k' => Shows k' (A.stores (Task.longMsg msg)).abandon)
        (E := fun _ _ => True) ?_ habandon
      exact h₁.wp_ipcAbandonCaller hS (fun _ _ => trivial) fun _ k' hk' => hk'
    cases he with
    | @fail s first =>
      -- The sender is in the queue that the caller has left it in, and no more.
      have hsame := hB.waiting_eq (hbefore.queue .sender (h₂.waiting e .sender))
      have hmem := first.mem
      have hlength := congrArg List.length hsame
      unfold Desk.dequeue at hlength
      rw [Desk.setWaiting_waiting, if_pos ⟨rfl, rfl⟩, List.length_erase_of_mem hmem] at hlength
      have hpos := List.length_pos_of_mem hmem
      omega
    | refuse empty =>
      have hnone : (A.waiting e .sender).head? = none := by
        have hwaiting : (A.stores (Task.longMsg msg)).abandon.waiting e .sender = A.waiting e .sender := by
          unfold Desk.abandon
          split <;> rfl
        rw [← hwaiting, empty]
        rfl
      rw [← hA.head] at hnone
      exact absurd (hpartner.symm.trans hnone) (by simp)
  | sendLong | reply => exact absurd hlate (by simp [Op.lateMsg])
  | _ => exact absurd hpartner (by simp [Op.partner])

theorem serve_of_step {c c' : Core} {op : Op} {answer : Bool}
    (hstep : CoreStep env c (.invoke op, some answer) c') :
    op.serve env c.kernel = .ok answer c'.kernel := by
  cases hstep with
  | invoke _ _ hserve =>
    cases hout : op.serve env c.kernel with
    | ok b k' =>
      rw [hout] at hserve
      obtain ⟨hb, rfl⟩ := Prod.mk.inj (Option.some.inj hserve)
      rw [Option.some.inj hb]
    | stop s k' =>
      rw [hout] at hserve
      cases s <;> exact absurd hserve (by simp [Outcome.toCore])

end Caprese
