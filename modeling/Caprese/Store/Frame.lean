import Caprese.Kernel.Task
import Caprese.Lib.Keeps
import Caprese.Store.Invariant

/-!
# `Caprese.Store.Frame`: messages and the end of a task leave the capabilities alone

The destructors of tasks and endpoints, `kill_task` and `ipc_cancel`, work on the queues and
on the states of tasks. `CapFrame k k'` lists what they do not touch: the slots, the page
tables, and the fields of tasks that the capability store reads. The frame conditions of the
user memory are stated for any relation that allows its bytes to change.
-/

set_option autoImplicit false

namespace Caprese

open Lib Prog

/-- `k'` has the capability store and the page tables of `k`. -/
structure CapFrame (k k' : Kernel) : Prop extends StoreFrame k k' where
  pageTables : k'.pageTables = k.pageTables
  trace : k'.trace = k.trace
  nextId : k'.nextId = k.nextId
  rootPageTable : ∀ t, (k'.tasks t).rootPageTable = (k.tasks t).rootPageTable
  capCount : ∀ t, (k'.tasks t).capCount = (k.tasks t).capCount

namespace CapFrame

variable {k k' k'' : Kernel}

theorem refl (k : Kernel) : CapFrame k k :=
  ⟨StoreFrame.refl k, rfl, rfl, rfl, fun _ => rfl, fun _ => rfl⟩

theorem trans (h : CapFrame k k') (h' : CapFrame k' k'') : CapFrame k k'' where
  toStoreFrame := h.toStoreFrame.trans h'.toStoreFrame
  pageTables := h'.pageTables.trans h.pageTables
  trace := h'.trace.trans h.trace
  nextId := h'.nextId.trans h.nextId
  rootPageTable t := (h'.rootPageTable t).trans (h.rootPageTable t)
  capCount t := (h'.capCount t).trans (h.capCount t)

instance : IsPreorder Kernel CapFrame where
  refl := refl
  trans _ _ _ := trans

/-- Stores into the other fields of one task. -/
theorem mapTask (k : Kernel) (t : TaskPtr) {f : Task → Task}
    (hslots : (f (k.tasks t)).freeSlots = (k.tasks t).freeSlots)
    (hcount : (f (k.tasks t)).freeSlotsCount = (k.tasks t).freeSlotsCount)
    (hroot : (f (k.tasks t)).rootPageTable = (k.tasks t).rootPageTable)
    (hcaps : (f (k.tasks t)).capCount = (k.tasks t).capCount)
    (hstate : (f (k.tasks t)).state = .unused ↔ (k.tasks t).state = .unused) :
    CapFrame k (k.mapTask t f) := by
  have hother : ∀ {t'}, t' ≠ t → (k.mapTask t f).tasks t' = k.tasks t' := fun h => upd_ne _ _ h
  have hsame : (k.mapTask t f).tasks t = f (k.tasks t) := upd_same _ _ _
  refine ⟨⟨rfl, rfl, fun t' => ?_, fun t' => ?_, fun t' => ?_⟩, rfl, rfl, rfl, fun t' => ?_,
    fun t' => ?_⟩ <;>
  · by_cases h : t' = t
    · rw [h, hsame]
      assumption
    · rw [hother h]

theorem setReadyLinks (k : Kernel) (L : Links TaskPtr) : CapFrame k (k.setReadyLinks L) :=
  ⟨⟨rfl, rfl, fun _ => rfl, fun _ => rfl, fun _ => Iff.rfl⟩, rfl, rfl, rfl, fun _ => rfl,
    fun _ => rfl⟩

theorem setWaitingLinks (k : Kernel) (L : Links TaskPtr) : CapFrame k (k.setWaitingLinks L) :=
  ⟨⟨rfl, rfl, fun _ => rfl, fun _ => rfl, fun _ => Iff.rfl⟩, rfl, rfl, rfl, fun _ => rfl,
    fun _ => rfl⟩

/-- Stores outside of the slots, the spaces, the tables, the tasks and the history. -/
theorem of_eq (hslots : k'.slots = k.slots) (hspaces : k'.capSpaces = k.capSpaces)
    (htasks : k'.tasks = k.tasks) (htables : k'.pageTables = k.pageTables)
    (htrace : k'.trace = k.trace) (hid : k'.nextId = k.nextId) : CapFrame k k' := by
  refine ⟨⟨hslots, hspaces, ?_, ?_, ?_⟩, htables, htrace, hid, ?_, ?_⟩ <;>
  · intro t
    rw [htasks]

end CapFrame

/-! ### Slots -/

section Slots

variable {R : Kernel → Kernel → Prop} [IsPreorder Kernel R]

theorem keeps_kassert (p : Prop) [Decidable p] : Keeps R (kassert p) :=
  keeps_bind keeps_ask fun _ => keeps_ite (keeps_pure ()) (keeps_ite (keeps_pure ()) (keeps_stop _))

theorem keeps_deref {α : Type} (p : Option α) : Keeps R (deref p) := by
  cases p with
  | none => exact keeps_stop _
  | some a => exact keeps_pure a

theorem keeps_kloop {α β : Type} {body : α → K (α ⊕ β)} (h : ∀ a, Keeps R (body a)) (a : α) :
    Keeps R (kloop body a) := keeps_bind keeps_ask fun _ => keeps_loop _ h _ _

theorem keeps_checkSlotTask (slot : SlotPtr) : Keeps R (checkSlotTask slot) :=
  keeps_bind keeps_get fun _ => keeps_bind (keeps_deref _) fun _ => keeps_bind keeps_get fun _ =>
    keeps_ite (keeps_stop _) (keeps_pure _)

variable (hlinks : ∀ k L, R k (k.setLinks L))

include hlinks

theorem keeps_insertBefore (this slot : SlotPtr) : Keeps R (insertBefore this slot) :=
  keeps_bind keeps_get fun _ => keeps_bind (keeps_kassert _) fun _ =>
    keeps_bind (keeps_checkSlotTask slot) fun _ => keeps_modify fun k => hlinks k _

theorem keeps_insertAfter (this slot : SlotPtr) : Keeps R (insertAfter this slot) := by
  unfold insertAfter
  refine keeps_bind keeps_get fun _ => keeps_bind (keeps_kassert _) fun _ => ?_
  refine keeps_bind (keeps_checkSlotTask slot) fun _ => ?_
  refine keeps_bind (keeps_kloop (fun tail => keeps_bind keeps_get fun k => ?_) _) fun _ =>
    keeps_modify fun k => hlinks k _
  cases (k.slots tail).next with
  | none => exact keeps_pure _
  | some next => exact keeps_pure _

theorem keeps_eraseThis (slot : SlotPtr) : Keeps R (eraseThis slot) :=
  keeps_bind (keeps_checkSlotTask slot) fun _ => keeps_bind keeps_get fun _ =>
    keeps_bind (keeps_modify fun k => hlinks k _) fun _ => keeps_pure _

theorem keeps_replace (this slot : SlotPtr) : Keeps R (replace this slot) :=
  keeps_bind keeps_get fun _ => keeps_bind (keeps_kassert _) fun _ =>
    keeps_bind (keeps_checkSlotTask slot) fun _ => keeps_modify fun k => hlinks k _

variable {task : TaskPtr}
  (hfree : ∀ k s n, R k (k.setTask task { k.tasks task with freeSlots := s, freeSlotsCount := n }))

include hfree

theorem keeps_pushFreeSlots (hcap : ∀ k s c, R k (k.setCap s c)) (slot : SlotPtr) :
    Keeps R (pushFreeSlots task slot) := by
  unfold pushFreeSlots
  refine keeps_bind keeps_get fun _ => keeps_bind (keeps_kassert _) fun _ => ?_
  refine keeps_bind (keeps_eraseThis hlinks slot) fun _ => ?_
  refine keeps_bind (keeps_modify fun k => hcap k _ _) fun _ => keeps_bind keeps_get fun k => ?_
  cases (k.tasks task).freeSlots with
  | none => exact keeps_modify fun k => hfree k _ _
  | some head =>
    exact keeps_bind (keeps_insertBefore hlinks _ _) fun _ => keeps_modify fun k => hfree k _ _

theorem keeps_popFreeSlots (herrno : ∀ k e, R k { k with errno := e }) :
    Keeps R (popFreeSlots task) := by
  unfold popFreeSlots
  refine keeps_bind keeps_get fun k => ?_
  cases (k.tasks task).freeSlots with
  | none => exact keeps_bind (keeps_modify fun k => herrno k _) fun _ => keeps_pure _
  | some slot =>
    exact keeps_bind (keeps_eraseThis hlinks slot) fun _ =>
      keeps_bind (keeps_modify fun k => hfree k _ _) fun _ => keeps_pure _

theorem keeps_insertCap (hcap : ∀ k s c, R k (k.setCap s c))
    (herrno : ∀ k e, R k { k with errno := e }) (c : Capability) : Keeps R (insertCap task c) := by
  unfold insertCap
  refine keeps_bind keeps_get fun _ =>
    keeps_ite ?_ (keeps_bind (keeps_popFreeSlots hlinks hfree herrno) ?_)
  · exact keeps_bind (keeps_modify fun k => herrno k _) fun _ => keeps_pure _
  · intro slot
    cases slot with
    | none => exact keeps_bind (keeps_modify fun k => herrno k _) fun _ => keeps_pure _
    | some slot => exact keeps_bind (keeps_modify fun k => hcap k _ _) fun _ => keeps_pure _

end Slots

/-! ### The user memory -/

section Memory

variable {R : Kernel → Kernel → Prop} [IsPreorder Kernel R]

theorem keeps_pageTableWalk (va level : Nat) : Keeps R (pageTableWalk va level) :=
  keeps_bind (keeps_kassert _) fun _ => keeps_bind (keeps_kassert _) fun _ => keeps_pure _

theorem keeps_walkLevels (va : Nat) (levels : List Nat) (table : TablePtr) :
    Keeps R (walkLevels va levels table) := by
  induction levels generalizing table with
  | nil => exact keeps_pure _
  | cons level levels ih =>
    refine keeps_bind (keeps_pageTableWalk va level) fun index => keeps_bind keeps_get fun k => ?_
    exact keeps_ite (keeps_pure _) (keeps_ite (ih _) (keeps_ite (keeps_pure _) (keeps_pure _)))

theorem keeps_walk (task : TaskPtr) (va : Nat) : Keeps R (walk task va) :=
  keeps_bind keeps_get fun _ => keeps_walkLevels _ _ _

theorem keeps_readUserMemory (task : TaskPtr) (src size : Nat) :
    Keeps R (readUserMemory task src size) := by
  refine keeps_bind (keeps_kloop (fun bytes => keeps_ite ?_ (keeps_pure _)) _) fun _ => keeps_pure _
  refine keeps_bind (keeps_walk _ _) fun found => ?_
  cases found with
  | none => exact keeps_pure _
  | some found => exact keeps_bind keeps_get fun _ => keeps_pure _

theorem keeps_checkReceiver (dst : TaskPtr) : Keeps R (checkReceiver dst) :=
  keeps_bind keeps_get fun _ => keeps_ite (keeps_stop _) (keeps_pure _)

theorem keeps_readMessageHeader (task : TaskPtr) : Keeps R (readMessageHeader task) :=
  keeps_bind keeps_ask fun _ => keeps_bind keeps_get fun _ =>
    keeps_bind (keeps_readUserMemory _ _ _) fun _ => keeps_pure _

variable (hmem : ∀ k addr bytes, R k (k.storeBytes addr bytes))

include hmem

theorem keeps_writeUserMemory (task : TaskPtr) (src : List UInt8) (dst : Nat) :
    Keeps R (writeUserMemory task src dst) := by
  refine keeps_kloop (fun written => keeps_ite ?_ (keeps_pure _)) _
  refine keeps_bind (keeps_walk _ _) fun found => ?_
  cases found with
  | none => exact keeps_pure _
  | some found => exact keeps_bind (keeps_modify fun k => hmem k _ _) fun _ => keeps_pure _

theorem keeps_forwardUserMemory (srcTask dstTask : TaskPtr) (src dst size : Nat) :
    Keeps R (forwardUserMemory srcTask dstTask src dst size) := by
  refine keeps_kloop (fun forwarded => keeps_ite ?_ (keeps_pure _)) _
  refine keeps_bind (keeps_walk _ _) fun found => ?_
  cases found with
  | none => exact keeps_pure _
  | some found =>
    refine keeps_bind (keeps_walk _ _) fun found' => ?_
    cases found' with
    | none => exact keeps_pure _
    | some found' =>
      exact keeps_bind (keeps_modify fun k => hmem k _ _) fun _ => keeps_pure _

theorem keeps_writeMessageHeader (task : TaskPtr) (header : MessageHeader) :
    Keeps R (writeMessageHeader task header) :=
  keeps_bind keeps_ask fun _ => keeps_bind keeps_get fun _ => keeps_writeUserMemory hmem _ _ _

end Memory

/-! ### Queues, `ipc_cancel` and `kill_task` -/

section Kill

variable {cfg : Config} {k : Kernel} {E : Stop → Kernel → Prop}

/-- The state after a waiting queue changed. -/
def Kernel.requeued (k : Kernel) (endpoint : EndpointPtr) (side : QueueSide) (queue : TaskQueue)
    (L : Links TaskPtr) : Kernel := (k.setWaitingLinks L).setQueue endpoint side queue

theorem CapFrame.requeued (k : Kernel) (endpoint : EndpointPtr) (side : QueueSide)
    (queue : TaskQueue) (L : Links TaskPtr) : CapFrame k (k.requeued endpoint side queue L) :=
  (setWaitingLinks k L).trans (of_eq rfl rfl rfl rfl rfl rfl)

theorem wp_removeWaitingQueue {endpoint : EndpointPtr} {side : QueueSide} {task : TaskPtr}
    {Q : Unit → Kernel → Prop} :
    wp (removeWaitingQueue endpoint side task) (.debug cfg) Q E k ↔
      if (k.tasks task).state = .waiting then
        match ((k.endpoints endpoint).queue side).remove k.waitingLinks task with
        | some (queue, L) => Q () (k.requeued endpoint side queue L)
        | none => E .nullDeref k
      else E .assertFailed k := by
  unfold removeWaitingQueue
  simp only [wp_bind, wp_get, wp_kassert, wp_deref]
  split
  · cases ((k.endpoints endpoint).queue side).remove k.waitingLinks task <;> rfl
  · rfl

theorem keeps_pushReadyQueue (task : TaskPtr) : Keeps CapFrame (pushReadyQueue task) := by
  unfold pushReadyQueue
  refine keeps_bind keeps_get fun _ => keeps_bind (keeps_kassert _) fun _ => ?_
  refine keeps_bind keeps_get fun _ => keeps_bind (keeps_kassert _) fun _ => ?_
  refine keeps_bind keeps_get fun _ => keeps_bind (keeps_kassert _) fun _ => ?_
  refine keeps_bind keeps_get fun _ => keeps_bind keeps_get fun _ => ?_
  refine keeps_bind (keeps_deref _) fun _ => keeps_modify fun k => ?_
  exact (CapFrame.setReadyLinks k _).trans (.of_eq rfl rfl rfl rfl rfl rfl)

theorem keeps_removeReadyQueue (task : TaskPtr) : Keeps CapFrame (removeReadyQueue task) := by
  unfold removeReadyQueue
  refine keeps_bind keeps_get fun _ => keeps_bind (keeps_kassert _) fun _ => ?_
  refine keeps_bind keeps_get fun _ => keeps_bind keeps_get fun _ => ?_
  refine keeps_bind (keeps_deref _) fun _ => keeps_modify fun k => ?_
  exact (CapFrame.setReadyLinks k _).trans (.of_eq rfl rfl rfl rfl rfl rfl)

theorem keeps_removeWaitingQueue (endpoint : EndpointPtr) (side : QueueSide) (task : TaskPtr) :
    Keeps CapFrame (removeWaitingQueue endpoint side task) := by
  unfold removeWaitingQueue
  refine keeps_bind keeps_get fun _ => keeps_bind (keeps_kassert _) fun _ => ?_
  refine keeps_bind keeps_get fun _ => keeps_bind keeps_get fun _ => ?_
  refine keeps_bind (keeps_deref _) fun _ => keeps_modify fun k => ?_
  exact .requeued k _ _ _ _

theorem keeps_pushWaitingQueue (endpoint : EndpointPtr) (side : QueueSide) (task : TaskPtr) :
    Keeps CapFrame (pushWaitingQueue endpoint side task) := by
  unfold pushWaitingQueue
  refine keeps_bind keeps_get fun _ => keeps_bind (keeps_kassert _) fun _ => ?_
  refine keeps_bind keeps_get fun _ => keeps_bind (keeps_kassert _) fun _ => ?_
  refine keeps_bind keeps_get fun _ => keeps_bind (keeps_kassert _) fun _ => ?_
  refine keeps_bind keeps_get fun _ => keeps_bind keeps_get fun _ => ?_
  refine keeps_bind (keeps_deref _) fun _ => keeps_modify fun k => ?_
  exact .requeued k _ _ _ _

theorem keeps_resched {α : Type} (resume : Resume) :
    Keeps CapFrame (resched resume : K α) := by
  unfold resched switchContext
  refine keeps_bind keeps_get fun _ => keeps_bind (keeps_modify fun k => ?_) fun _ => ?_
  · exact .of_eq rfl rfl rfl rfl rfl rfl
  · exact keeps_bind (keeps_modify fun k => .mapTask k _ rfl rfl rfl rfl Iff.rfl) fun _ =>
      keeps_stop _

theorem keeps_ipcTransferKillMsg (dst src : TaskPtr) :
    Keeps CapFrame (ipcTransferKillMsg dst src) := by
  have hmem : ∀ k addr bytes, CapFrame k (k.storeBytes addr bytes) :=
    fun k _ _ => .of_eq rfl rfl rfl rfl rfl rfl
  unfold ipcTransferKillMsg
  refine keeps_bind (keeps_checkReceiver dst) fun _ => ?_
  refine keeps_bind (keeps_readMessageHeader dst) fun header => ?_
  cases header with
  | none => exact keeps_pure _
  | some header =>
    refine keeps_bind keeps_ask fun _ => keeps_bind keeps_get fun _ => keeps_bind keeps_get ?_
    refine fun _ => keeps_bind (keeps_writeMessageHeader hmem _ _) fun b => ?_
    refine keeps_ite (keeps_bind (keeps_modify fun k => ?_) fun _ => keeps_pure _) (keeps_pure _)
    exact .mapTask k _ rfl rfl rfl rfl Iff.rfl

/-- A task taken out of a waiting queue was in use, so a store to its state is not seen. -/
theorem capFrame_requeued_mapTask {endpoint : EndpointPtr} {side : QueueSide}
    {queue : TaskQueue} {L : Links TaskPtr} {task : TaskPtr} {f : Task → Task}
    (hwait : (k.tasks task).state = .waiting)
    (hf : ∀ t : Task, (f t).freeSlots = t.freeSlots ∧ (f t).freeSlotsCount = t.freeSlotsCount ∧
      (f t).rootPageTable = t.rootPageTable ∧ (f t).capCount = t.capCount ∧
      (f t).state ≠ .unused) :
    CapFrame k ((k.requeued endpoint side queue L).mapTask task f) := by
  obtain ⟨h1, h2, h3, h4, h5⟩ := hf ((k.requeued endpoint side queue L).tasks task)
  refine (CapFrame.requeued k endpoint side queue L).trans (.mapTask _ _ h1 h2 h3 h4 ?_)
  have hstate : ((k.requeued endpoint side queue L).tasks task).state = .waiting := hwait
  simp [h5, hstate]

theorem wp_ipcCancelOne (endpoint : EndpointPtr) (side : QueueSide) (task : TaskPtr) :
    wp (ipcCancelOne endpoint side task) (.debug cfg) (fun _ k' => CapFrame k k')
      (fun _ k' => CapFrame k k') k := by
  unfold ipcCancelOne modifyTask
  rw [wp_bind, wp_removeWaitingQueue]
  split
  · rename_i hwait
    split
    · rw [wp_bind, wp_modify]
      refine (keeps_pushReadyQueue task).wp (fun _ _ h => CapFrame.trans ?_ h)
        (fun _ _ h => CapFrame.trans ?_ h) <;>
      · refine capFrame_requeued_mapTask hwait fun t => ?_
        cases side <;> simp [Task.received, Task.sent]
    · exact .refl k
  · exact .refl k

theorem wp_ipcCancelQueue (endpoint : EndpointPtr) (side : QueueSide) :
    wp (ipcCancelQueue endpoint side) (.debug cfg) (fun _ k' => CapFrame k k')
      (fun e k' => e = .switched → CapFrame k k') k := by
  refine wp_kloop (fun _ k' => CapFrame k k') (.refl k) (by simp) fun _ k' hk => ?_
  rw [wp_bind, wp_get]
  cases (((k'.endpoints endpoint).queue side).head) with
  | none => exact hk
  | some task =>
    simp only [wp_bind, wp_pure]
    exact wp_mono (wp_ipcCancelOne endpoint side task) (fun _ _ h => hk.trans h)
      (fun _ _ h _ => hk.trans h)

theorem wp_ipcCancel (endpoint : EndpointPtr) :
    wp (ipcCancel endpoint) (.debug cfg) (fun _ k' => CapFrame k k')
      (fun e k' => e = .switched → CapFrame k k') k := by
  unfold ipcCancel
  rw [wp_bind]
  refine wp_mono (wp_ipcCancelQueue endpoint .receiver) (fun _ k' h => ?_) (fun _ _ h => h)
  exact wp_mono (wp_ipcCancelQueue endpoint .sender) (fun _ _ h' => h.trans h')
    (fun _ _ h' he => h.trans (h' he))

/-- The stops that no assertion, no explicit check and no loop ends in. -/
class Unchecked (e : Stop) : Prop where
  assertFailed : .assertFailed ≠ e
  panic : .panic ≠ e
  diverged : .diverged ≠ e

instance : Unchecked .switched := ⟨by decide, by decide, by decide⟩

instance : Unchecked .nullDeref := ⟨by decide, by decide, by decide⟩

theorem avoids_kassert {e : Stop} [Unchecked e] (p : Prop) [Decidable p] : Avoids e (kassert p) :=
  avoids_bind avoids_ask fun _ =>
    avoids_ite (avoids_pure ()) (avoids_ite (avoids_pure ()) (avoids_stop Unchecked.assertFailed))

theorem avoids_deref {α : Type} (p : Option α) : Avoids .switched (deref p) := by
  cases p with
  | none => exact avoids_stop (by decide)
  | some a => exact avoids_pure a

/-- `ipc_cancel` does not give up the processor. -/
theorem avoids_ipcCancel (endpoint : EndpointPtr) : Avoids .switched (ipcCancel endpoint) := by
  have hone : ∀ side task, Avoids .switched (ipcCancelOne endpoint side task) := by
    intro side task
    unfold ipcCancelOne removeWaitingQueue pushReadyQueue modifyTask
    refine avoids_bind ?_ fun _ => avoids_bind (avoids_modify _) fun _ => ?_
    · exact avoids_bind avoids_get fun _ => avoids_bind (avoids_kassert _) fun _ =>
        avoids_bind avoids_get fun _ => avoids_bind avoids_get fun _ =>
          avoids_bind (avoids_deref _) fun _ => avoids_modify _
    · refine avoids_bind avoids_get fun _ => avoids_bind (avoids_kassert _) fun _ => ?_
      refine avoids_bind avoids_get fun _ => avoids_bind (avoids_kassert _) fun _ => ?_
      refine avoids_bind avoids_get fun _ => avoids_bind (avoids_kassert _) fun _ => ?_
      exact avoids_bind avoids_get fun _ => avoids_bind avoids_get fun _ =>
        avoids_bind (avoids_deref _) fun _ => avoids_modify _
  have hqueue : ∀ side, Avoids .switched (ipcCancelQueue endpoint side) := by
    intro side
    unfold ipcCancelQueue kloop
    refine avoids_bind avoids_ask fun _ => avoids_loop (by decide) (fun _ => ?_) _ _
    refine avoids_bind avoids_get fun k => ?_
    cases (((k.endpoints endpoint).queue side).head) with
    | none => exact avoids_pure _
    | some task => exact avoids_bind (hone side task) fun _ => avoids_pure _
  exact avoids_bind (hqueue .receiver) fun _ => hqueue .sender

theorem wp_ipcSendKillNotify (endpoint : EndpointPtr) (task : TaskPtr) :
    wp (ipcSendKillNotify endpoint task) (.debug cfg) (fun _ k' => CapFrame k k')
      (fun _ k' => CapFrame k k') k := by
  have hresched : ∀ {k'}, CapFrame k k' → wp (resched (.killNotify task) : K Unit) (.debug cfg)
      (fun _ k'' => CapFrame k k'') (fun _ k'' => CapFrame k k'') k' := fun hk =>
    (keeps_resched _).wp (fun _ _ h => hk.trans h) (fun _ _ h => hk.trans h)
  unfold ipcSendKillNotify modifyTask
  simp only [wp_bind, wp_get, wp_kassert]
  split
  · cases (k.endpoints endpoint).receiverQueue.head with
    | none =>
      simp only [wp_bind, wp_modify]
      have hk : CapFrame k (k.mapTask task fun t =>
          { t with ipcState := .sending, eventType := .kill, endpoint := some endpoint }) :=
        .mapTask k _ rfl rfl rfl rfl Iff.rfl
      exact (keeps_pushWaitingQueue _ _ _).wp (fun _ _ h => hresched (hk.trans h))
        (fun _ _ h => hk.trans h)
    | some receiver =>
      simp only [wp_bind, wp_get, wp_kassert]
      split
      · refine (keeps_ipcTransferKillMsg receiver task).wp (fun _ k₁ h₁ => ?_) (fun _ _ h => h)
        rw [wp_removeWaitingQueue]
        split
        · rename_i hwait
          split
          · rename_i queue L _
            rw [wp_modify]
            have h₂ : CapFrame k ((k₁.requeued endpoint .receiver queue L).mapTask receiver
                Task.received) :=
              h₁.trans (capFrame_requeued_mapTask hwait fun t =>
                ⟨rfl, rfl, rfl, rfl, by simp [Task.received]⟩)
            exact (keeps_pushReadyQueue _).wp (fun _ _ h => hresched (h₂.trans h))
              (fun _ _ h => h₂.trans h)
          · exact h₁
        · exact h₁
      · exact .refl k
  · exact .refl k

theorem keeps_leaveQueues (task : TaskPtr) : Keeps CapFrame (leaveQueues task) := by
  unfold leaveQueues
  refine keeps_bind keeps_get fun k => ?_
  cases (k.tasks task).state with
  | ready => exact keeps_removeReadyQueue task
  | waiting =>
    refine keeps_bind keeps_get fun k => ?_
    cases (k.tasks task).endpoint with
    | none => exact keeps_pure _
    | some endpoint =>
      refine keeps_bind keeps_get fun k => ?_
      cases (k.tasks task).ipcState with
      | sending => exact keeps_removeWaitingQueue _ _ _
      | receiving => exact keeps_removeWaitingQueue _ _ _
      | calling =>
        refine keeps_bind keeps_get fun k => keeps_bind (keeps_deref _) fun callee => ?_
        refine keeps_bind keeps_get fun k => keeps_bind (keeps_kassert _) fun _ => ?_
        exact keeps_modify fun k => .mapTask k _ rfl rfl rfl rfl Iff.rfl
      | none => exact keeps_stop _
      | canceled => exact keeps_stop _
  | unused => exact keeps_pure _
  | running => exact keeps_pure _
  | suspended => exact keeps_pure _
  | killed => exact keeps_pure _

/-- `kill_task` touches no capability, whether it returns or gives up the processor. -/
theorem wp_killTask (task : TaskPtr) (exitStatus : Int) :
    wp (killTask task exitStatus) (.debug cfg) (fun _ k' => CapFrame k k')
      (fun _ k' => CapFrame k k') k := by
  unfold killTask modifyTask
  rw [wp_bind, wp_get, wp_bind, wp_kassert]
  split
  · rename_i hused
    rw [wp_bind]
    refine (keeps_leaveQueues task).wp (fun _ k₁ h₁ => ?_) (fun _ _ h => h)
    rw [wp_bind, wp_modify, wp_bind]
    have hused₁ : (k₁.tasks task).state ≠ .unused := by rwa [ne_eq, h₁.unused]
    have h₂ : CapFrame k (k₁.mapTask task fun t =>
        { t with state := .killed, exitStatus := exitStatus }) :=
      h₁.trans (.mapTask k₁ _ rfl rfl rfl rfl (by simp [hused₁]))
    have hrest : ∀ k₃, CapFrame k k₃ → wp (killTaskTail task) (.debug cfg)
        (fun _ k' => CapFrame k k') (fun _ k' => CapFrame k k') k₃ := by
      intro k₃ h₃
      unfold killTaskTail
      rw [wp_bind]
      refine (keeps_bind keeps_get fun _ => keeps_ite (keeps_stop _) (keeps_pure ()) :
        Keeps CapFrame (checkNotRoot task)).wp (fun _ k₄ h₄ => ?_) (fun _ _ h => h₃.trans h)
      rw [wp_bind, wp_get]
      refine (keeps_ite (keeps_resched _) (keeps_pure ())).wp (fun _ _ h => ?_) (fun _ _ h => ?_)
      · exact h₃.trans (h₄.trans h)
      · exact h₃.trans (h₄.trans h)
    unfold notifyKill
    rw [wp_bind, wp_get]
    split
    · exact wp_mono (wp_ipcSendKillNotify _ _) (fun _ k₃ h₃ => hrest k₃ (h₂.trans h₃))
        (fun _ _ h => h₂.trans h)
    · exact hrest _ h₂
  · exact .refl k

end Kill

end Caprese
