import Caprese.Memory.Rights
import Caprese.Store.Refine

/-!
# `Caprese.Store.Unslotted`: the kernel without its slots

`Kernel.unslotted` forgets the slots and the free lists. Messages, queues and the end of a task work
on the rest: two kernels with the same rest go through `kill_task` and `ipc_cancel` alike
(`twins_killTask`, `twins_ipcCancel`), whatever their capabilities are.
-/

set_option autoImplicit false

namespace Caprese

open Lib Prog

variable {env : Env} {k k' : Kernel} {α β : Type} {V : α → Prop}

/-- A task without its free list. -/
def Task.unslotted (task : Task) : Task := { task with freeSlots := none, freeSlotsCount := 0 }

/-- The kernel without its slots and free lists. -/
def Kernel.unslotted (k : Kernel) : Kernel :=
  { k with slots := fun _ => ⟨.null, none, none⟩, tasks := fun t => (k.tasks t).unslotted }

/-- The two kernels differ in nothing but slots and free lists. -/
def SameRest (k k' : Kernel) : Prop := k'.unslotted = k.unslotted

instance : IsPreorder Kernel SameRest where
  refl _ := rfl
  trans _ _ _ h h' := Eq.trans h' h

/-! ### Slots and free lists -/

theorem setTask_unslotted {t : TaskPtr} {task : Task} (htask : task.unslotted = (k.tasks t).unslotted) :
    (k.setTask t task).unslotted = k.unslotted := by
  have htasks : (k.setTask t task).unslotted.tasks = k.unslotted.tasks := by
    funext t'
    show (upd k.tasks t task t').unslotted = (k.tasks t').unslotted
    by_cases ht : t' = t
    · rw [ht, upd_same, htask]
    · rw [upd_ne _ _ ht]
  show { k.unslotted with tasks := (k.setTask t task).unslotted.tasks } = _
  rw [htasks]

theorem freed_unslotted (k : Kernel) (t : TaskPtr) (s : SlotPtr) :
    (k.freed t s).unslotted = k.unslotted := setTask_unslotted rfl

theorem popped_unslotted (k : Kernel) (t : TaskPtr) (s : SlotPtr) :
    (k.popped t s).unslotted = k.unslotted := setTask_unslotted rfl

/-! ### Reads and stores -/

/-- A read of the rest. -/
theorem twins_readRest {f : Kernel → K α} (hf : ∀ k, f k.unslotted = f k)
    (h : ∀ k, Twins env SameRest V (f k)) : Twins env SameRest V (get >>= f) := by
  refine twins_get fun k k' hrest => ⟨?_, h k⟩
  rw [← hf k', hrest, hf]

/-- A store to the rest. -/
theorem twins_storeRest {f : Kernel → Kernel} (hf : ∀ k, (f k.unslotted).unslotted = (f k).unslotted) :
    Twins env SameRest (fun _ => True) (modify f : K Unit) := by
  refine twins_modify fun k k' (hrest : k'.unslotted = k.unslotted) => ?_
  show (f k').unslotted = (f k).unslotted
  rw [← hf k', hrest, hf]

theorem twins_modifyTask (task : TaskPtr) {f : Task → Task} (hf : ∀ t, (f t.unslotted).unslotted = (f t).unslotted) :
    Twins env SameRest (fun _ => True) (modifyTask task f) := by
  refine twins_storeRest fun k => ?_
  have htasks : (k.unslotted.mapTask task f).unslotted.tasks = (k.mapTask task f).unslotted.tasks := by
    funext t
    by_cases ht : t = task
    · subst ht
      show (upd k.unslotted.tasks t _ t).unslotted = (upd k.tasks t _ t).unslotted
      rw [upd_same, upd_same]
      exact hf (k.tasks t)
    · show (upd k.unslotted.tasks task _ t).unslotted = (upd k.tasks task _ t).unslotted
      rw [upd_ne _ _ ht, upd_ne _ _ ht]
      rfl
  show { (k.mapTask task f).unslotted with tasks := (k.unslotted.mapTask task f).unslotted.tasks } = _
  rw [htasks]

/-! ### User memory -/

theorem twins_pageTableWalkRest (va level : Nat) :
    Twins env SameRest (fun _ => True) (pageTableWalk va level) :=
  twins_bind (twins_kassert _) fun _ _ => twins_bind (twins_kassert _) fun _ _ => twins_pure trivial

theorem twins_walkLevelsRest (va : Nat) (levels : List Nat) (table : TablePtr) :
    Twins env SameRest (fun _ => True) (walkLevels va levels table) := by
  induction levels generalizing table with
  | nil => exact twins_pure trivial
  | cons level levels ih =>
    refine twins_bind (twins_pageTableWalkRest va level) fun index _ => ?_
    refine twins_readRest (fun _ => rfl) fun k => ?_
    refine twins_ite (fun _ => twins_pure trivial) fun _ => ?_
    refine twins_ite (fun _ => ih _) fun _ => ?_
    exact twins_ite (fun _ => twins_pure trivial) fun _ => twins_pure trivial

theorem twins_walkRest (task : TaskPtr) (va : Nat) :
    Twins env SameRest (fun _ => True) (walk task va) :=
  twins_readRest (fun _ => rfl) fun _ => twins_walkLevelsRest _ _ _

theorem twins_readUserMemoryRest (task : TaskPtr) (src size : Nat) :
    Twins env SameRest (fun _ => True) (readUserMemory task src size) := by
  have hread : Twins env SameRest (fun _ => True) (readUserMemoryTo task src size) := by
    refine twins_kloop (fun _ => True) (fun bytes _ => ?_) trivial
    refine twins_ite (fun _ => ?_) fun _ => twins_pure trivial
    refine twins_bind (twins_walkRest _ _) fun found _ => ?_
    cases found with
    | none => exact twins_pure trivial
    | some found => exact twins_readRest (fun _ => rfl) fun _ => twins_pure trivial
  exact twins_bind hread fun _ _ => twins_pure trivial

theorem twins_readMessageHeaderRest (task : TaskPtr) :
    Twins env SameRest (fun _ => True) (readMessageHeader task) :=
  twins_ask (twins_readRest (fun _ => rfl) fun _ =>
    twins_bind (twins_readUserMemoryRest _ _ _) fun _ _ => twins_pure trivial)

theorem twins_writeMessageHeaderRest (task : TaskPtr) (header : MessageHeader) :
    Twins env SameRest (fun _ => True) (writeMessageHeader task header) := by
  refine twins_ask (twins_readRest (fun _ => rfl) fun k => ?_)
  refine twins_kloop (fun _ => True) (fun written _ => ?_) trivial
  refine twins_ite (fun _ => ?_) fun _ => twins_pure trivial
  refine twins_bind (twins_walkRest _ _) fun found _ => ?_
  cases found with
  | none => exact twins_pure trivial
  | some found => exact twins_bind (twins_storeRest fun _ => rfl) fun _ _ => twins_pure trivial

/-! ### Queues -/

theorem twins_pushReadyQueue (task : TaskPtr) :
    Twins env SameRest (fun _ => True) (pushReadyQueue task) := by
  refine twins_readRest (fun _ => rfl) fun _ => twins_bind (twins_kassert _) fun _ _ => ?_
  refine twins_readRest (fun _ => rfl) fun _ => twins_bind (twins_kassert _) fun _ _ => ?_
  refine twins_readRest (fun _ => rfl) fun _ => twins_bind (twins_kassert _) fun _ _ => ?_
  refine twins_readRest (fun _ => rfl) fun _ => twins_readRest (fun _ => rfl) fun _ => ?_
  exact twins_bind (twins_deref _) fun _ _ => twins_storeRest fun _ => rfl

theorem twins_removeReadyQueue (task : TaskPtr) :
    Twins env SameRest (fun _ => True) (removeReadyQueue task) := by
  refine twins_readRest (fun _ => rfl) fun _ => twins_bind (twins_kassert _) fun _ _ => ?_
  refine twins_readRest (fun _ => rfl) fun _ => twins_readRest (fun _ => rfl) fun _ => ?_
  exact twins_bind (twins_deref _) fun _ _ => twins_storeRest fun _ => rfl

theorem twins_removeWaitingQueue (endpoint : EndpointPtr) (side : QueueSide) (task : TaskPtr) :
    Twins env SameRest (fun _ => True) (removeWaitingQueue endpoint side task) := by
  refine twins_readRest (fun _ => rfl) fun _ => twins_bind (twins_kassert _) fun _ _ => ?_
  refine twins_readRest (fun _ => rfl) fun _ => twins_readRest (fun _ => rfl) fun _ => ?_
  exact twins_bind (twins_deref _) fun _ _ => twins_storeRest fun _ => rfl

theorem twins_pushWaitingQueue (endpoint : EndpointPtr) (side : QueueSide) (task : TaskPtr) :
    Twins env SameRest (fun _ => True) (pushWaitingQueue endpoint side task) := by
  refine twins_readRest (fun _ => rfl) fun _ => twins_bind (twins_kassert _) fun _ _ => ?_
  refine twins_readRest (fun _ => rfl) fun _ => twins_bind (twins_kassert _) fun _ _ => ?_
  refine twins_readRest (fun _ => rfl) fun _ => twins_bind (twins_kassert _) fun _ _ => ?_
  refine twins_readRest (fun _ => rfl) fun _ => twins_readRest (fun _ => rfl) fun _ => ?_
  exact twins_bind (twins_deref _) fun _ _ => twins_storeRest fun _ => rfl

theorem twins_resched (resume : Resume) :
    Twins env SameRest (fun _ => True) (resched resume : K α) := by
  refine twins_readRest (fun _ => rfl) fun _ => twins_bind (twins_storeRest fun _ => rfl) fun _ _ => ?_
  exact twins_bind (twins_modifyTask _ fun _ => rfl) fun _ _ => twins_stop _

/-! ### `ipc_cancel` and `kill_task` -/

theorem twins_ipcTransferKillMsg (dst src : TaskPtr) :
    Twins env SameRest (fun _ => True) (ipcTransferKillMsg dst src) := by
  have hcheck : Twins env SameRest (fun _ => True) (checkReceiver dst) :=
    twins_readRest (fun _ => rfl) fun _ => twins_ite (fun _ => twins_stop _) fun _ =>
      twins_pure trivial
  refine twins_bind hcheck fun _ _ => twins_bind (twins_readMessageHeaderRest dst) fun header _ => ?_
  cases header with
  | none => exact twins_pure trivial
  | some header =>
    refine twins_ask (twins_readRest (fun _ => rfl) fun _ => twins_readRest (fun _ => rfl) fun _ => ?_)
    refine twins_bind (twins_writeMessageHeaderRest _ _) fun _ _ => ?_
    refine twins_ite (fun _ => ?_) fun _ => twins_pure trivial
    exact twins_bind (twins_modifyTask _ fun _ => rfl) fun _ _ => twins_pure trivial

theorem twins_ipcCancelQueue (endpoint : EndpointPtr) (side : QueueSide) :
    Twins env SameRest (fun _ => True) (ipcCancelQueue endpoint side) := by
  have hone : ∀ task, Twins env SameRest (fun _ => True) (ipcCancelOne endpoint side task) := by
    refine fun task => twins_bind (twins_removeWaitingQueue _ _ _) fun _ _ => ?_
    refine twins_bind (twins_modifyTask _ fun t => ?_) fun _ _ => twins_pushReadyQueue task
    cases side with
    | sender => rfl
    | receiver => rfl
  refine twins_kloop (fun _ => True) (fun _ _ => twins_readRest (fun _ => rfl) fun k => ?_) trivial
  cases (((k.endpoints endpoint).queue side).head) with
  | none => exact twins_pure trivial
  | some task => exact twins_bind (hone task) fun _ _ => twins_pure trivial

theorem twins_ipcCancel (endpoint : EndpointPtr) :
    Twins env SameRest (fun _ => True) (ipcCancel endpoint) :=
  twins_bind (twins_ipcCancelQueue _ _) fun _ _ => twins_ipcCancelQueue _ _

theorem twins_ipcSendKillNotify (endpoint : EndpointPtr) (task : TaskPtr) :
    Twins env SameRest (fun _ => True) (ipcSendKillNotify endpoint task) := by
  refine twins_readRest (fun _ => rfl) fun _ => twins_bind (twins_kassert _) fun _ _ => ?_
  refine twins_readRest (fun _ => rfl) fun k => ?_
  cases (k.endpoints endpoint).receiverQueue.head with
  | none =>
    refine twins_bind (twins_modifyTask _ fun _ => rfl) fun _ _ => ?_
    exact twins_bind (twins_pushWaitingQueue _ _ _) fun _ _ => twins_resched _
  | some receiver =>
    refine twins_readRest (fun _ => rfl) fun _ => twins_bind (twins_kassert _) fun _ _ => ?_
    refine twins_bind (twins_ipcTransferKillMsg receiver task) fun _ _ => ?_
    refine twins_bind (twins_removeWaitingQueue _ _ _) fun _ _ => ?_
    refine twins_bind (twins_modifyTask _ fun _ => rfl) fun _ _ => ?_
    exact twins_bind (twins_pushReadyQueue _) fun _ _ => twins_resched _

theorem twins_leaveEndpoint (task : TaskPtr) (endpoint : EndpointPtr) :
    Twins env SameRest (fun _ => True) (leaveEndpoint task endpoint) := by
  refine twins_readRest (fun _ => rfl) fun k => ?_
  cases (k.tasks task).ipcState with
  | sending => exact twins_removeWaitingQueue _ _ _
  | receiving => exact twins_removeWaitingQueue _ _ _
  | calling =>
    refine twins_readRest (fun _ => rfl) fun _ => twins_bind (twins_deref _) fun callee _ => ?_
    refine twins_readRest (fun _ => rfl) fun _ => twins_bind (twins_kassert _) fun _ _ => ?_
    exact twins_modifyTask _ fun _ => rfl
  | none => exact twins_stop _
  | canceled => exact twins_stop _

theorem twins_leaveQueues (task : TaskPtr) :
    Twins env SameRest (fun _ => True) (leaveQueues task) := by
  refine twins_readRest (fun _ => rfl) fun k => ?_
  cases (k.tasks task).state with
  | ready => exact twins_removeReadyQueue task
  | waiting =>
    refine twins_readRest (fun _ => rfl) fun k => ?_
    cases (k.tasks task).endpoint with
    | none => exact twins_pure trivial
    | some endpoint => exact twins_leaveEndpoint task endpoint
  | unused => exact twins_pure trivial
  | running => exact twins_pure trivial
  | suspended => exact twins_pure trivial
  | killed => exact twins_pure trivial

theorem twins_killTask (task : TaskPtr) (exitStatus : Int) :
    Twins env SameRest (fun _ => True) (killTask task exitStatus) := by
  refine twins_readRest (fun _ => rfl) fun _ => twins_bind (twins_kassert _) fun _ _ => ?_
  refine twins_bind (twins_leaveQueues task) fun _ _ => ?_
  refine twins_bind (twins_modifyTask _ fun _ => rfl) fun _ _ => ?_
  have hnotify : Twins env SameRest (fun _ => True) (notifyKill task) := by
    refine twins_readRest (fun _ => rfl) fun k => ?_
    cases (k.tasks task).killNotify with
    | none => exact twins_pure trivial
    | some endpoint => exact twins_ipcSendKillNotify endpoint task
  have hroot : Twins env SameRest (fun _ => True) (checkNotRoot task) :=
    twins_readRest (fun _ => rfl) fun _ => twins_ite (fun _ => twins_stop _) fun _ =>
      twins_pure trivial
  refine twins_bind hnotify fun _ _ => twins_bind hroot fun _ _ => twins_readRest (fun _ => rfl) ?_
  exact fun _ => twins_ite (fun _ => twins_resched _) fun _ => twins_pure trivial

end Caprese
