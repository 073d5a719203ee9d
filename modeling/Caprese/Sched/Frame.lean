import Caprese.Kernel.Core
import Caprese.Store.Attach

/-!
# `Caprese.Sched.Frame`: capabilities and messages leave the queues alone

What the scheduler and the message passing read of a task is all of it but its free slots and
its count of capability spaces. `SchedFrame k k'` says that this part of every task, the
endpoints, the ready queue and the processor are the same. The operations on slots and the
transfer of a message keep it: a message changes user memory and capabilities, and nothing
that a queue depends on.
-/

set_option autoImplicit false

namespace Caprese

open Lib Prog

/-- A task without its free slots and its counts. -/
def Task.bare (task : Task) : Task :=
  { task with freeSlots := none, freeSlotsCount := 0, capCount := ⟨0, 0⟩ }

/-- The receiver and the sender of a message that was handed over. -/
def Event.delivery : Event → Option (TaskPtr × TaskPtr)
  | .deliver dst src => some (dst, src)
  | _ => none

/-- The messages that were handed over so far. -/
def Kernel.deliveries (k : Kernel) : List (TaskPtr × TaskPtr) := k.trace.filterMap Event.delivery

/-- `k'` has the queues, the processor and the states of tasks of `k`. -/
structure SchedFrame (k k' : Kernel) : Prop where
  tasks : ∀ t, (k'.tasks t).bare = (k.tasks t).bare
  endpoints : k'.endpoints = k.endpoints
  readyQueue : k'.readyQueue = k.readyQueue
  currentTask : k'.currentTask = k.currentTask
  idleTask : k'.idleTask = k.idleTask
  deliveries : k'.deliveries = k.deliveries

namespace SchedFrame

variable {k k' k'' : Kernel}

theorem refl (k : Kernel) : SchedFrame k k := ⟨fun _ => rfl, rfl, rfl, rfl, rfl, rfl⟩

theorem trans (h : SchedFrame k k') (h' : SchedFrame k' k'') : SchedFrame k k'' where
  tasks t := (h'.tasks t).trans (h.tasks t)
  endpoints := h'.endpoints.trans h.endpoints
  readyQueue := h'.readyQueue.trans h.readyQueue
  currentTask := h'.currentTask.trans h.currentTask
  idleTask := h'.idleTask.trans h.idleTask
  deliveries := h'.deliveries.trans h.deliveries

instance : IsPreorder Kernel SchedFrame where
  refl := refl
  trans _ _ _ := trans

/-- Stores outside of tasks, endpoints and queues. -/
theorem of_eq (htasks : k'.tasks = k.tasks) (hendpoints : k'.endpoints = k.endpoints)
    (hready : k'.readyQueue = k.readyQueue) (hcurrent : k'.currentTask = k.currentTask)
    (hidle : k'.idleTask = k.idleTask) (htrace : k'.deliveries = k.deliveries) :
    SchedFrame k k' := ⟨fun t => by rw [htasks], hendpoints, hready, hcurrent, hidle, htrace⟩

/-- A store to the part of a task that no queue depends on. -/
theorem setTask {t : TaskPtr} {task : Task} (h : task.bare = (k.tasks t).bare) :
    SchedFrame k (k.setTask t task) := by
  refine ⟨fun t' => ?_, rfl, rfl, rfl, rfl, rfl⟩
  rw [Kernel.setTask_tasks, upd_apply]
  split
  · rename_i heq
    rw [heq, h]
  · rfl

section Fields

variable (h : SchedFrame k k') (t : TaskPtr)

include h

theorem field {α : Type} (f : Task → α) (hf : ∀ task : Task, f task.bare = f task) :
    f (k'.tasks t) = f (k.tasks t) := by
  rw [← hf (k'.tasks t), ← hf (k.tasks t), h.tasks]

theorem context : (k'.tasks t).context = (k.tasks t).context :=
  h.field t Task.context fun _ => rfl

theorem state : (k'.tasks t).state = (k.tasks t).state := h.field t Task.state fun _ => rfl

theorem ipcState : (k'.tasks t).ipcState = (k.tasks t).ipcState :=
  h.field t Task.ipcState fun _ => rfl

theorem ipcMsgState : (k'.tasks t).ipcMsgState = (k.tasks t).ipcMsgState :=
  h.field t Task.ipcMsgState fun _ => rfl

theorem eventType : (k'.tasks t).eventType = (k.tasks t).eventType :=
  h.field t Task.eventType fun _ => rfl

theorem endpoint : (k'.tasks t).endpoint = (k.tasks t).endpoint :=
  h.field t Task.endpoint fun _ => rfl

theorem callerTask : (k'.tasks t).callerTask = (k.tasks t).callerTask :=
  h.field t Task.callerTask fun _ => rfl

theorem calleeTask : (k'.tasks t).calleeTask = (k.tasks t).calleeTask :=
  h.field t Task.calleeTask fun _ => rfl

theorem killNotify : (k'.tasks t).killNotify = (k.tasks t).killNotify :=
  h.field t Task.killNotify fun _ => rfl

omit t in
theorem waitingLinks : k'.waitingLinks = k.waitingLinks := by
  ext1
  · funext t
    exact h.field t Task.prevWaitingTask fun _ => rfl
  · funext t
    exact h.field t Task.nextWaitingTask fun _ => rfl

omit t in
theorem readyLinks : k'.readyLinks = k.readyLinks := by
  ext1
  · funext t
    exact h.field t Task.prevReadyTask fun _ => rfl
  · funext t
    exact h.field t Task.nextReadyTask fun _ => rfl

end Fields

/-! ### Slots -/

theorem keeps_same {f : Kernel → Kernel} (htasks : ∀ k, (f k).tasks = k.tasks)
    (hrest : ∀ k, (f k).endpoints = k.endpoints ∧ (f k).readyQueue = k.readyQueue ∧
      (f k).currentTask = k.currentTask ∧ (f k).idleTask = k.idleTask ∧
      (f k).deliveries = k.deliveries) : Keeps SchedFrame (modify f : K Unit) := by
  refine keeps_modify fun k => ?_
  obtain ⟨hendpoints, hready, hcurrent, hidle, htrace⟩ := hrest k
  exact of_eq (htasks k) hendpoints hready hcurrent hidle htrace

theorem keeps_setErrno (e : SysError) : Keeps SchedFrame (setErrno e) :=
  keeps_same (fun _ => rfl) fun _ => ⟨rfl, rfl, rfl, rfl, rfl⟩

theorem keeps_setCap (s : SlotPtr) (c : Capability) :
    Keeps SchedFrame (modify fun k => k.setCap s c : K Unit) :=
  keeps_same (fun _ => rfl) fun _ => ⟨rfl, rfl, rfl, rfl, rfl⟩

theorem setLinks_frame (k : Kernel) (L : Links SlotPtr) : SchedFrame k (k.setLinks L) :=
  of_eq rfl rfl rfl rfl rfl rfl

theorem freeSlots_frame {task : TaskPtr} (k : Kernel) (s : Option SlotPtr) (n : Nat) :
    SchedFrame k (k.setTask task { k.tasks task with freeSlots := s, freeSlotsCount := n }) :=
  setTask rfl

theorem keeps_insertAfter (this slot : SlotPtr) : Keeps SchedFrame (insertAfter this slot) :=
  Caprese.keeps_insertAfter setLinks_frame this slot

theorem keeps_replace (this slot : SlotPtr) : Keeps SchedFrame (replace this slot) :=
  Caprese.keeps_replace setLinks_frame this slot

theorem keeps_pushFreeSlots (task : TaskPtr) (slot : SlotPtr) :
    Keeps SchedFrame (pushFreeSlots task slot) :=
  Caprese.keeps_pushFreeSlots setLinks_frame freeSlots_frame
    (fun _ _ _ => of_eq rfl rfl rfl rfl rfl rfl) slot

theorem keeps_popFreeSlots (task : TaskPtr) : Keeps SchedFrame (popFreeSlots task) :=
  Caprese.keeps_popFreeSlots setLinks_frame freeSlots_frame fun _ _ => of_eq rfl rfl rfl rfl rfl rfl

theorem keeps_insertCap (task : TaskPtr) (c : Capability) :
    Keeps SchedFrame (insertCap task c) :=
  Caprese.keeps_insertCap setLinks_frame freeSlots_frame
    (fun _ _ _ => of_eq rfl rfl rfl rfl rfl rfl) (fun _ _ => of_eq rfl rfl rfl rfl rfl rfl) c

/-- A refusal: an error code, and no slot. -/
theorem keeps_fail {α : Type} (e : SysError) (a : α) :
    Keeps SchedFrame (do setErrno e; return a : K α) :=
  keeps_bind (keeps_setErrno e) fun _ => keeps_pure a

theorem keeps_transferCap (dstTask : TaskPtr) (srcSlot : Option SlotPtr) :
    Keeps SchedFrame (transferCap dstTask srcSlot) := by
  unfold transferCap
  refine keeps_bind (keeps_kassert _) fun _ => keeps_bind (keeps_deref _) fun srcSlot => ?_
  refine keeps_bind keeps_get fun _ => keeps_bind (keeps_deref _) fun srcTask => ?_
  refine keeps_bind keeps_get fun _ => keeps_ite (keeps_fail _ _) ?_
  refine keeps_bind keeps_get fun _ => keeps_ite (keeps_fail _ _) ?_
  refine keeps_bind keeps_get fun _ => keeps_ite (keeps_fail _ _) ?_
  refine keeps_bind keeps_get fun _ => keeps_bind (keeps_insertCap _ _) fun dstSlot => ?_
  cases dstSlot with
  | none => exact keeps_pure _
  | some dstSlot =>
    exact keeps_bind (keeps_replace _ _) fun _ => keeps_bind (keeps_pushFreeSlots _ _) fun _ =>
      keeps_pure _

theorem keeps_delegateCap (task : TaskPtr) (srcSlot : Option SlotPtr) :
    Keeps SchedFrame (delegateCap task srcSlot) := by
  unfold delegateCap
  refine keeps_bind (keeps_deref _) fun srcSlot => ?_
  refine keeps_bind keeps_get fun _ => keeps_bind (keeps_deref _) fun srcTask => ?_
  refine keeps_bind keeps_get fun _ => keeps_ite (keeps_fail _ _) ?_
  refine keeps_bind keeps_get fun _ => keeps_ite (keeps_fail _ _) ?_
  refine keeps_bind keeps_get fun _ => keeps_ite (keeps_fail _ _) ?_
  refine keeps_bind keeps_get fun _ => keeps_bind (keeps_insertCap _ _) fun dstSlot => ?_
  cases dstSlot with
  | none => exact keeps_pure _
  | some dstSlot =>
    exact keeps_bind (keeps_setCap _ _) fun _ => keeps_bind (keeps_insertAfter _ _) fun _ =>
      keeps_pure _

theorem keeps_walkMapped (va : Nat) (levels : List Nat) (table : TablePtr) :
    Keeps SchedFrame (walkMapped va levels table) := by
  induction levels generalizing table with
  | nil => exact keeps_pure _
  | cons level levels ih =>
    refine keeps_bind (keeps_pageTableWalk va level) fun _ => keeps_bind keeps_get fun _ => ?_
    exact keeps_ite (keeps_pure _) (ih _)

theorem keeps_lookupCap (task : TaskPtr) (capDesc : Nat) :
    Keeps SchedFrame (lookupCap task capDesc) := by
  unfold lookupCap
  refine keeps_bind keeps_get fun _ => keeps_ite (keeps_fail _ _) (keeps_ite (keeps_fail _ _) ?_)
  refine keeps_bind (keeps_walkMapped _ _ _) fun found => ?_
  cases found with
  | none => exact keeps_fail _ _
  | some space =>
    exact keeps_bind keeps_get fun _ => keeps_ite (keeps_fail _ _) (keeps_pure _)

/-! ### Messages -/

theorem storeBytes (k : Kernel) (addr : Nat) (bytes : List UInt8) :
    SchedFrame k (k.storeBytes addr bytes) := of_eq rfl rfl rfl rfl rfl rfl

theorem keeps_writeUserMemory (task : TaskPtr) (src : List UInt8) (dst : Nat) :
    Keeps SchedFrame (writeUserMemory task src dst) :=
  Caprese.keeps_writeUserMemory storeBytes task src dst

theorem keeps_writeMessageHeader (task : TaskPtr) (header : MessageHeader) :
    Keeps SchedFrame (writeMessageHeader task header) :=
  Caprese.keeps_writeMessageHeader storeBytes task header

theorem keeps_transferMsgCap (dst src : TaskPtr) (i : Nat) :
    Keeps SchedFrame (transferMsgCap dst src i) := by
  unfold transferMsgCap
  refine keeps_bind keeps_ask fun env => keeps_bind keeps_get fun _ => ?_
  refine keeps_bind (keeps_readUserMemory _ _ _) fun bytes => ?_
  cases bytes with
  | none => exact keeps_pure _
  | some bytes =>
    refine keeps_bind (keeps_lookupCap _ _) fun slot => ?_
    refine keeps_ite (keeps_bind (keeps_delegateCap _ _) ?_) (keeps_bind (keeps_transferCap _ _) ?_)
    all_goals
      rintro (_ | dstSlot)
      · exact keeps_pure _
      · exact keeps_bind (keeps_bind keeps_get fun _ => keeps_pure _) fun _ =>
          keeps_bind keeps_get fun _ => keeps_writeUserMemory _ _ _

theorem keeps_transferMsgCaps (dst src : TaskPtr) (is dataTypeMap : List Nat) :
    Keeps SchedFrame (transferMsgCaps dst src is dataTypeMap) := by
  induction is generalizing dataTypeMap with
  | nil => exact keeps_pure _
  | cons i is ih =>
    unfold transferMsgCaps
    refine keeps_ite (keeps_bind (keeps_transferMsgCap _ _ _) fun _ => ?_) (ih _)
    exact keeps_ite (ih _) (keeps_pure _)

theorem keeps_transferLongPayload (dst src : TaskPtr) (header : MessageHeader) :
    Keeps SchedFrame (transferLongPayload dst src header) := by
  unfold transferLongPayload
  refine keeps_bind keeps_ask fun _ => keeps_bind keeps_get fun _ => keeps_bind keeps_get ?_
  refine fun _ => keeps_bind (Caprese.keeps_forwardUserMemory storeBytes _ _ _ _ _) fun _ => ?_
  refine keeps_ite (keeps_bind (keeps_transferMsgCaps _ _ _ _) fun map => ?_) (keeps_pure _)
  cases map with
  | none => exact keeps_pure _
  | some map => exact keeps_ite (keeps_writeMessageHeader _ _) (keeps_pure _)

theorem keeps_transferPayload (dst src : TaskPtr) (header : MessageHeader) :
    Keeps SchedFrame (transferPayload dst src header) := by
  unfold transferPayload
  refine keeps_bind keeps_get fun k => ?_
  dsimp only
  cases (k.tasks src).ipcMsgState with
  | empty => exact keeps_pure _
  | shortSize =>
    exact keeps_bind keeps_get fun _ => keeps_bind keeps_ask fun _ => keeps_writeUserMemory _ _ _
  | longSize => exact keeps_transferLongPayload _ _ _

theorem keeps_sourceHeader (src : TaskPtr) : Keeps SchedFrame (sourceHeader src) := by
  unfold sourceHeader
  refine keeps_bind keeps_get fun k => ?_
  dsimp only
  cases (k.tasks src).ipcMsgState with
  | empty => exact keeps_pure _
  | shortSize => exact keeps_pure _
  | longSize => exact keeps_readMessageHeader _

/-- A message is handed over without a change to any queue or state of a task, and it is
handed over once if it is handed over. -/
theorem wp_ipcTransferIpcMsg {env : Env} {k : Kernel} (dst src : TaskPtr) :
    wp (ipcTransferIpcMsg dst src) env
      (fun sent k' => ∃ k₁, SchedFrame k k₁ ∧
        k' = if sent then k₁.record (.deliver dst src) else k₁)
      (fun _ k' => SchedFrame k k') k := by
  have hfail : ∀ {k'}, SchedFrame k k' → ∃ k₁, SchedFrame k k₁ ∧
      k' = if false then k₁.record (.deliver dst src) else k₁ := fun h => ⟨_, h, rfl⟩
  unfold ipcTransferIpcMsg
  rw [wp_bind]
  refine (keeps_checkReceiver dst).wp (fun _ k₁ h₁ => ?_) fun _ _ h => h
  rw [wp_bind]
  refine (keeps_sourceHeader src).wp (fun srcHeader k₂ h₂ => ?_) fun _ _ h => h₁.trans h
  replace h₂ := h₁.trans h₂
  cases srcHeader with
  | none => exact hfail h₂
  | some srcHeader =>
    show wp (readMessageHeader dst >>= _) _ _ _ _
    rw [wp_bind]
    refine (keeps_readMessageHeader dst).wp (fun dstHeader k₃ h₃ => ?_) fun _ _ h => h₂.trans h
    replace h₃ := h₂.trans h₃
    cases dstHeader with
    | none => exact hfail h₃
    | some dstHeader =>
      simp only [wp_ite, wp_bind, wp_pure, wp_ask, wp_get]
      split
      · exact hfail h₃
      · refine (keeps_writeMessageHeader _ _).wp (fun b k₄ h₄ => ?_) fun _ _ h => h₃.trans h
        replace h₄ := h₃.trans h₄
        split
        · refine (keeps_transferPayload _ _ _).wp (fun b k₅ h₅ => ?_) fun _ _ h => h₄.trans h
          replace h₅ := h₄.trans h₅
          split
          · exact ⟨k₅, h₅, rfl⟩
          · exact hfail h₅
        · exact hfail h₄

end SchedFrame

/-! ### Messages keep the processor -/

section Stay

variable {e : Stop} [Unchecked e]

theorem avoids_kloop {α β : Type} {body : α → K (α ⊕ β)} (h : ∀ a, Avoids e (body a))
    (a : α) : Avoids e (kloop body a) :=
  avoids_bind avoids_ask fun _ => avoids_loop Unchecked.diverged h _ _

theorem avoids_fail {α : Type} (e : SysError) (a : α) :
    Avoids .switched (do setErrno e; return a : K α) :=
  avoids_bind (avoids_modify _) fun _ => avoids_pure a

theorem avoids_eraseThis (slot : SlotPtr) : Avoids .switched (eraseThis slot) :=
  avoids_bind (avoids_checkSlotTask slot) fun _ => avoids_bind avoids_get fun _ =>
    avoids_bind (avoids_modify _) fun _ => avoids_pure _

theorem avoids_insertAfter (this slot : SlotPtr) : Avoids .switched (insertAfter this slot) := by
  unfold insertAfter
  refine avoids_bind avoids_get fun _ => avoids_bind (avoids_kassert _) fun _ => ?_
  refine avoids_bind (avoids_checkSlotTask slot) fun _ => ?_
  refine avoids_bind (avoids_kloop (fun tail => avoids_bind avoids_get fun k => ?_) _) fun _ =>
    avoids_modify _
  cases (k.slots tail).next with
  | none => exact avoids_pure _
  | some next => exact avoids_pure _

theorem avoids_replace (this slot : SlotPtr) : Avoids .switched (replace this slot) :=
  avoids_bind avoids_get fun _ => avoids_bind (avoids_kassert _) fun _ =>
    avoids_bind (avoids_checkSlotTask slot) fun _ => avoids_modify _

theorem avoids_insertCap (task : TaskPtr) (c : Capability) :
    Avoids .switched (insertCap task c) := by
  unfold insertCap popFreeSlots
  refine avoids_bind avoids_get fun _ => avoids_ite (avoids_fail _ _) (avoids_bind ?_ ?_)
  · refine avoids_bind avoids_get fun k => ?_
    cases (k.tasks task).freeSlots with
    | none => exact avoids_fail _ _
    | some slot =>
      exact avoids_bind (avoids_eraseThis slot) fun _ => avoids_bind (avoids_modify _) fun _ =>
        avoids_pure _
  · intro slot
    cases slot with
    | none => exact avoids_fail _ _
    | some slot => exact avoids_bind (avoids_modify _) fun _ => avoids_pure _

theorem avoids_transferCap (dstTask : TaskPtr) (srcSlot : Option SlotPtr) :
    Avoids .switched (transferCap dstTask srcSlot) := by
  unfold transferCap
  refine avoids_bind (avoids_kassert _) fun _ => avoids_bind (avoids_deref _) fun srcSlot => ?_
  refine avoids_bind avoids_get fun _ => avoids_bind (avoids_deref _) fun srcTask => ?_
  refine avoids_bind avoids_get fun _ => avoids_ite (avoids_fail _ _) ?_
  refine avoids_bind avoids_get fun _ => avoids_ite (avoids_fail _ _) ?_
  refine avoids_bind avoids_get fun _ => avoids_ite (avoids_fail _ _) ?_
  refine avoids_bind avoids_get fun _ => avoids_bind (avoids_insertCap _ _) fun dstSlot => ?_
  cases dstSlot with
  | none => exact avoids_pure _
  | some dstSlot =>
    exact avoids_bind (avoids_replace _ _) fun _ => avoids_bind (avoids_pushFreeSlots _ _)
      fun _ => avoids_pure _

theorem avoids_delegateCap (task : TaskPtr) (srcSlot : Option SlotPtr) :
    Avoids .switched (delegateCap task srcSlot) := by
  unfold delegateCap
  refine avoids_bind (avoids_deref _) fun srcSlot => ?_
  refine avoids_bind avoids_get fun _ => avoids_bind (avoids_deref _) fun srcTask => ?_
  refine avoids_bind avoids_get fun _ => avoids_ite (avoids_fail _ _) ?_
  refine avoids_bind avoids_get fun _ => avoids_ite (avoids_fail _ _) ?_
  refine avoids_bind avoids_get fun _ => avoids_ite (avoids_fail _ _) ?_
  refine avoids_bind avoids_get fun _ => avoids_bind (avoids_insertCap _ _) fun dstSlot => ?_
  cases dstSlot with
  | none => exact avoids_pure _
  | some dstSlot =>
    exact avoids_bind (avoids_modify _) fun _ => avoids_bind (avoids_insertAfter _ _) fun _ =>
      avoids_pure _

theorem avoids_walkMapped (va : Nat) (levels : List Nat) (table : TablePtr) :
    Avoids .switched (walkMapped va levels table) := by
  induction levels generalizing table with
  | nil => exact avoids_pure _
  | cons level levels ih =>
    refine avoids_bind (avoids_pageTableWalk va level) fun _ => avoids_bind avoids_get fun _ => ?_
    exact avoids_ite (avoids_pure _) (ih _)

theorem avoids_lookupCap (task : TaskPtr) (capDesc : Nat) :
    Avoids .switched (lookupCap task capDesc) := by
  unfold lookupCap
  refine avoids_bind avoids_get fun _ => avoids_ite (avoids_fail _ _)
    (avoids_ite (avoids_fail _ _) ?_)
  refine avoids_bind (avoids_walkMapped _ _ _) fun found => ?_
  cases found with
  | none => exact avoids_fail _ _
  | some space =>
    exact avoids_bind avoids_get fun _ => avoids_ite (avoids_fail _ _) (avoids_pure _)

theorem avoids_walkLevels (va : Nat) (levels : List Nat) (table : TablePtr) :
    Avoids e (walkLevels va levels table) := by
  induction levels generalizing table with
  | nil => exact avoids_pure _
  | cons level levels ih =>
    refine avoids_bind (avoids_pageTableWalk va level) fun _ => avoids_bind avoids_get fun _ => ?_
    exact avoids_ite (avoids_pure _) (avoids_ite (ih _) (avoids_ite (avoids_pure _)
      (avoids_pure _)))

theorem avoids_walk (task : TaskPtr) (va : Nat) : Avoids e (walk task va) :=
  avoids_bind avoids_get fun _ => avoids_walkLevels _ _ _

theorem avoids_readUserMemory (task : TaskPtr) (src size : Nat) :
    Avoids e (readUserMemory task src size) := by
  refine avoids_bind (avoids_kloop (fun bytes => avoids_ite ?_ (avoids_pure _)) _)
    fun _ => avoids_pure _
  refine avoids_bind (avoids_walk _ _) fun found => ?_
  cases found with
  | none => exact avoids_pure _
  | some found => exact avoids_bind avoids_get fun _ => avoids_pure _

theorem avoids_writeUserMemory (task : TaskPtr) (src : List UInt8) (dst : Nat) :
    Avoids e (writeUserMemory task src dst) := by
  refine avoids_kloop (fun written => avoids_ite ?_ (avoids_pure _)) _
  refine avoids_bind (avoids_walk _ _) fun found => ?_
  cases found with
  | none => exact avoids_pure _
  | some found => exact avoids_bind (avoids_modify _) fun _ => avoids_pure _

theorem avoids_forwardUserMemory (srcTask dstTask : TaskPtr) (src dst size : Nat) :
    Avoids .switched (forwardUserMemory srcTask dstTask src dst size) := by
  refine avoids_kloop (fun forwarded => avoids_ite ?_ (avoids_pure _)) _
  refine avoids_bind (avoids_walk _ _) fun found => ?_
  cases found with
  | none => exact avoids_pure _
  | some found =>
    refine avoids_bind (avoids_walk _ _) fun found' => ?_
    cases found' with
    | none => exact avoids_pure _
    | some found' => exact avoids_bind (avoids_modify _) fun _ => avoids_pure _

theorem avoids_readMessageHeader (task : TaskPtr) : Avoids e (readMessageHeader task) :=
  avoids_bind avoids_ask fun _ => avoids_bind avoids_get fun _ =>
    avoids_bind (avoids_readUserMemory _ _ _) fun _ => avoids_pure _

theorem avoids_writeMessageHeader (task : TaskPtr) (header : MessageHeader) :
    Avoids e (writeMessageHeader task header) :=
  avoids_bind avoids_ask fun _ => avoids_bind avoids_get fun _ => avoids_writeUserMemory _ _ _

theorem avoids_transferMsgCap (dst src : TaskPtr) (i : Nat) :
    Avoids .switched (transferMsgCap dst src i) := by
  unfold transferMsgCap
  refine avoids_bind avoids_ask fun env => avoids_bind avoids_get fun _ => ?_
  refine avoids_bind (avoids_readUserMemory _ _ _) fun bytes => ?_
  cases bytes with
  | none => exact avoids_pure _
  | some bytes =>
    refine avoids_bind (avoids_lookupCap _ _) fun slot => ?_
    refine avoids_ite (avoids_bind (avoids_delegateCap _ _) ?_)
      (avoids_bind (avoids_transferCap _ _) ?_)
    all_goals
      rintro (_ | dstSlot)
      · exact avoids_pure _
      · exact avoids_bind (avoids_bind avoids_get fun _ => avoids_pure _) fun _ =>
          avoids_bind avoids_get fun _ => avoids_writeUserMemory _ _ _

theorem avoids_transferMsgCaps (dst src : TaskPtr) (is dataTypeMap : List Nat) :
    Avoids .switched (transferMsgCaps dst src is dataTypeMap) := by
  induction is generalizing dataTypeMap with
  | nil => exact avoids_pure _
  | cons i is ih =>
    unfold transferMsgCaps
    refine avoids_ite (avoids_bind (avoids_transferMsgCap _ _ _) fun _ => ?_) (ih _)
    exact avoids_ite (ih _) (avoids_pure _)

theorem avoids_transferPayload (dst src : TaskPtr) (header : MessageHeader) :
    Avoids .switched (transferPayload dst src header) := by
  unfold transferPayload
  refine avoids_bind avoids_get fun k => ?_
  dsimp only
  cases (k.tasks src).ipcMsgState with
  | empty => exact avoids_pure _
  | shortSize =>
    exact avoids_bind avoids_get fun _ => avoids_bind avoids_ask fun _ =>
      avoids_writeUserMemory _ _ _
  | longSize =>
    unfold transferLongPayload
    refine avoids_bind avoids_ask fun _ => avoids_bind avoids_get fun _ => avoids_bind avoids_get ?_
    refine fun _ => avoids_bind (avoids_forwardUserMemory _ _ _ _ _) fun _ => ?_
    refine avoids_ite (avoids_bind (avoids_transferMsgCaps _ _ _ _) fun map => ?_) (avoids_pure _)
    cases map with
    | none => exact avoids_pure _
    | some map => exact avoids_ite (avoids_writeMessageHeader _ _) (avoids_pure _)

theorem avoids_checkReceiver (dst : TaskPtr) : Avoids e (checkReceiver dst) :=
  avoids_bind avoids_get fun _ => avoids_ite (avoids_stop Unchecked.panic) (avoids_pure _)

theorem avoids_sourceHeader (src : TaskPtr) : Avoids .switched (sourceHeader src) := by
  unfold sourceHeader
  refine avoids_bind avoids_get fun k => ?_
  dsimp only
  cases (k.tasks src).ipcMsgState with
  | empty => exact avoids_pure _
  | shortSize => exact avoids_pure _
  | longSize => exact avoids_readMessageHeader _

theorem avoids_ipcTransferIpcMsg (dst src : TaskPtr) :
    Avoids .switched (ipcTransferIpcMsg dst src) := by
  unfold ipcTransferIpcMsg
  refine avoids_bind (avoids_checkReceiver dst) fun _ => ?_
  refine avoids_bind (avoids_sourceHeader src) fun srcHeader => ?_
  cases srcHeader with
  | none => exact avoids_pure _
  | some srcHeader =>
    refine avoids_bind (avoids_readMessageHeader dst) fun dstHeader => ?_
    cases dstHeader with
    | none => exact avoids_pure _
    | some dstHeader =>
      refine avoids_ite (avoids_pure _) ?_
      refine avoids_bind avoids_ask fun _ => avoids_bind avoids_get fun _ => avoids_bind avoids_get ?_
      refine fun _ => avoids_bind (avoids_writeMessageHeader _ _) fun _ => ?_
      refine avoids_ite (avoids_bind (avoids_transferPayload _ _ _) fun _ => ?_) (avoids_pure _)
      exact avoids_ite (avoids_bind (avoids_modify _) fun _ => avoids_pure _) (avoids_pure _)

theorem avoids_ipcTransferKillMsg (dst src : TaskPtr) :
    Avoids e (ipcTransferKillMsg dst src) := by
  unfold ipcTransferKillMsg
  refine avoids_bind (avoids_checkReceiver dst) fun _ => ?_
  refine avoids_bind (avoids_readMessageHeader dst) fun dstHeader => ?_
  cases dstHeader with
  | none => exact avoids_pure _
  | some dstHeader =>
    refine avoids_bind avoids_ask fun _ => avoids_bind avoids_get fun _ => avoids_bind avoids_get ?_
    refine fun _ => avoids_bind (avoids_writeMessageHeader _ _) fun _ => ?_
    exact avoids_ite (avoids_bind (avoids_modify _) fun _ => avoids_pure _) (avoids_pure _)

end Stay

/-- The message about the end of a task empties the buffer of its receiver. -/
theorem wp_ipcTransferKillMsg {env : Env} {k : Kernel} (dst src : TaskPtr) :
    wp (ipcTransferKillMsg dst src) env
      (fun sent k' => ∃ k₁, SchedFrame k k₁ ∧
        k' = if sent then k₁.mapTask dst fun t => { t with ipcMsgState := .empty } else k₁)
      (fun _ k' => SchedFrame k k') k := by
  have hfail : ∀ {k'}, SchedFrame k k' → ∃ k₁, SchedFrame k k₁ ∧ k' = if false
      then k₁.mapTask dst fun t => { t with ipcMsgState := .empty } else k₁ :=
    fun h => ⟨_, h, rfl⟩
  unfold ipcTransferKillMsg
  rw [wp_bind]
  refine (keeps_checkReceiver dst).wp (fun _ k₁ h₁ => ?_) fun _ _ h => h
  rw [wp_bind]
  refine (keeps_readMessageHeader dst).wp (fun dstHeader k₂ h₂ => ?_) fun _ _ h => h₁.trans h
  replace h₂ := h₁.trans h₂
  cases dstHeader with
  | none => exact hfail h₂
  | some dstHeader =>
    simp only [wp_ite, wp_bind, wp_pure, wp_ask, wp_get]
    refine (SchedFrame.keeps_writeMessageHeader _ _).wp (fun b k₃ h₃ => ?_) fun _ _ h => h₂.trans h
    replace h₃ := h₂.trans h₃
    split
    · exact ⟨k₃, h₃, rfl⟩
    · exact hfail h₃

end Caprese
