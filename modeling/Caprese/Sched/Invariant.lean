import Caprese.Sched.Desk

/-!
# `Caprese.Sched.Invariant`: who waits for whom

`Desk.Inv` is the joint discipline of the message passing and the scheduler. A task in a
queue of an endpoint waits there as its fields say, an endpoint never has both senders and
receivers, a caller and its callee name each other, the ready queue holds the ready tasks,
and a task that may get the processor can go on where it left it.

`Allows` tells what has happened to tasks so far: where one may be killed while it waits for a
reply, a dead task may still name its callee, and where notices are let in, which only the
build without assertions does, a dead task may wait in a queue of senders.

The lemmas of the second half take the invariant through the changes that the operations
are made of: a task starts to wait, is woken, is bound to its callee or released, gives the
processor away, or ends.
-/

set_option autoImplicit false

namespace Caprese

open Lib Prog

namespace Task

variable (task : Task)

/-- The task waits for a message at the endpoint. -/
structure Receives (endpoint : EndpointPtr) : Prop where
  state : task.state = .waiting
  ipcState : task.ipcState = .receiving
  endpoint : task.endpoint = some endpoint
  callee : task.calleeTask = none
  caller : task.callerTask = none
  msgState : task.ipcMsgState = .longSize
  context : task.context = .ipcReceive

/-- The task waits at the endpoint for a receiver of its message or call. -/
structure Sends (endpoint : EndpointPtr) : Prop where
  state : task.state = .waiting
  kind : task.ipcState = .sending ∧ task.context = .ipcSend ∨
    task.ipcState = .calling ∧ task.ipcMsgState = .longSize ∧ task.context = .ipcCall
  endpoint : task.endpoint = some endpoint
  callee : task.calleeTask = none
  eventType : task.eventType = .send

/-- The task is dead, and the endpoint is to be told. -/
structure Notifies (endpoint : EndpointPtr) : Prop where
  state : task.state = .killed
  endpoint : task.endpoint = some endpoint
  eventType : task.eventType = .kill

/-- The task waits for the reply to a call. -/
structure Calls : Prop where
  state : task.state = .waiting
  ipcState : task.ipcState = .calling
  eventType : task.eventType = .send
  msgState : task.ipcMsgState = .longSize
  endpoint : task.endpoint ≠ none
  context : task.context = .ipcCall

/-- What the task asserts when it goes on holds. -/
def Resumable : Prop :=
  match task.context with
  | .ipcSend | .ipcCall => (task.ipcState = .none ∨ task.ipcState = .canceled) ∧
      task.eventType = .none ∧ task.ipcMsgState = .empty
  | .ipcReceive => (task.ipcState = .none ∨ task.ipcState = .canceled) ∧
      task.ipcMsgState = .empty
  | .idle => False
  | _ => True

end Task

namespace Desk

/-- The lists of the queues are without repetition, and no task is in two of them. -/
structure Proper (A : Desk) : Prop where
  ready : A.ready.Nodup
  waiting : ∀ e s, (A.waiting e s).Nodup
  one : ∀ e s e' s' t, t ∈ A.waiting e s → t ∈ A.waiting e' s' → e = e' ∧ s = s'

/-- A task that has had the processor and is not waiting. -/
def Paused (task : Task) : Prop :=
  task.state = .ready ∨ task.state = .suspended ∨ task.state = .running

/-- What the joint discipline reckons with: that a task is killed while it waits for a reply,
and that a dead task waits as a notice. -/
structure Allows where
  deaths : Prop
  notices : Prop

structure Inv (N : Allows) (A : Desk) : Prop where
  receivers : ∀ e t, t ∈ A.waiting e .receiver → (A.tasks t).Receives e
  senders : ∀ e t, t ∈ A.waiting e .sender → (A.tasks t).Sends e ∨
    N.notices ∧ (A.tasks t).Notifies e
  excl : ∀ e s r, s ∈ A.waiting e .sender → r ∉ A.waiting e .receiver
  callee : ∀ t s, (A.tasks t).calleeTask = some s → (A.tasks t).state ≠ .killed →
    (A.tasks t).Calls ∧ (A.tasks s).callerTask = some t
  caller : ∀ s t, (A.tasks s).callerTask = some t → (A.tasks t).calleeTask = some s ∧
    (A.tasks t).state ≠ .killed
  dead : ∀ t, (A.tasks t).state = .killed → N.deaths ∨ (A.tasks t).calleeTask = none
  ready : ∀ t, t ∈ A.ready ↔ (A.tasks t).state = .ready ∧ t ≠ A.idle
  resumable : ∀ t, t ≠ A.current → t ≠ A.idle → Paused (A.tasks t) → (A.tasks t).Resumable
  idle : (A.tasks A.idle).context = .idle ∧ (A.tasks A.idle).state = .ready

/-- The current task is in user mode. -/
structure User (A : Desk) : Prop where
  notIdle : A.current ≠ A.idle
  notReady : (A.tasks A.current).state ≠ .ready
  alive : (A.tasks A.current).state ≠ .killed
  callee : (A.tasks A.current).calleeTask = none
  notQueued : ¬ A.Queued A.current

/-- The current task was switched in. -/
def SwitchedIn (A : Desk) : Prop :=
  A.current = A.idle ∨ (A.tasks A.current).state = .running ∧ (A.tasks A.current).Resumable

/-- The task `t` is woken, after a store to it. -/
def wake (A : Desk) (t : TaskPtr) (f : Task → Task) : Desk := (A.mapTask t f).pushReady t

/-- The current task gives the processor to `t`, and both are stored to. -/
def swap (A : Desk) (t : TaskPtr) (f g : Task → Task) : Desk :=
  (((A.mapTask t f).run t).mapTask A.current g).pushReady A.current

/-- `switch_task`. -/
def handOver (A : Desk) (t : TaskPtr) : Desk :=
  A.swap t (fun task => { task with state := .running })
    fun task => { task with state := .ready, context := .switchTask }

section Changes

attribute [local grind =] upd_apply List.mem_append List.mem_singleton

variable {N : Allows} {A : Desk} {t r s c : TaskPtr} {e : EndpointPtr} {f g : Task → Task}

@[grind =] theorem mem_dequeue (hp : A.Proper) {side side' : QueueSide} {e' : EndpointPtr} :
    t ∈ (A.dequeue r e side).waiting e' side' ↔
      t ∈ A.waiting e' side' ∧ ¬ (e' = e ∧ side' = side ∧ t = r) := by
  unfold dequeue
  rw [setWaiting_waiting]
  by_cases h : e' = e ∧ side' = side
  · obtain ⟨rfl, rfl⟩ := h
    rw [if_pos ⟨rfl, rfl⟩, (hp.waiting _ _).mem_erase_iff]
    constructor
    · rintro ⟨hne, ht⟩
      exact ⟨ht, fun hc => hne hc.2.2⟩
    · rintro ⟨ht, hne⟩
      exact ⟨fun heq => hne ⟨rfl, rfl, heq⟩, ht⟩
  · rw [if_neg h]
    constructor
    · intro ht
      exact ⟨ht, fun hc => h ⟨hc.1, hc.2.1⟩⟩
    · intro ht
      exact ht.1

@[grind =] theorem mem_enqueue {side side' : QueueSide} {e' : EndpointPtr} :
    t ∈ (A.enqueue r e side).waiting e' side' ↔
      t ∈ A.waiting e' side' ∨ (e' = e ∧ side' = side ∧ t = r) := by
  unfold enqueue
  rw [setWaiting_waiting]
  by_cases h : e' = e ∧ side' = side
  · obtain ⟨rfl, rfl⟩ := h
    simp
  · rw [if_neg h]
    constructor
    · intro ht
      exact Or.inl ht
    · rintro (ht | hc)
      · exact ht
      · exact absurd ⟨hc.1, hc.2.1⟩ h

/-- The current task may store to its message, and even to its state. -/
theorem Inv.store (h : A.Inv N) (hu : A.User)
    (hcallee : (f (A.tasks A.current)).calleeTask = none)
    (hcaller : (f (A.tasks A.current)).callerTask = (A.tasks A.current).callerTask)
    (hstate : (f (A.tasks A.current)).state ≠ .ready) :
    (A.mapTask A.current f).Inv N := by
  have hself := hu.notQueued
  have hidle := hu.notIdle
  unfold Queued at hself
  constructor <;> grind [Inv, User]

theorem User.store (hu : A.User)
    (hcallee : (f (A.tasks A.current)).calleeTask = none)
    (hready : (f (A.tasks A.current)).state ≠ .ready)
    (halive : (f (A.tasks A.current)).state ≠ .killed) : (A.mapTask A.current f).User := by
  have hself := hu.notQueued
  refine ⟨hu.notIdle, ?_, ?_, ?_, hself⟩
  · simpa using hready
  · simpa using halive
  · simpa using hcallee

/-- A receiver is woken. -/
theorem Inv.wakeReceiver (h : A.Inv N) (hp : A.Proper) (hr : r ∈ A.waiting e .receiver)
    (hstate : (f (A.tasks r)).state = .ready) (hcallee : (f (A.tasks r)).calleeTask = none)
    (hcaller : (f (A.tasks r)).callerTask = none)
    (hcontext : (f (A.tasks r)).context = .ipcReceive)
    (hipc : (f (A.tasks r)).ipcState = .none ∨ (f (A.tasks r)).ipcState = .canceled)
    (hmsg : (f (A.tasks r)).ipcMsgState = .empty) :
    ((A.dequeue r e .receiver).wake r f).Inv N := by
  have hreceives := h.receivers e r hr
  have hone := fun e' s' ht => hp.one e .receiver e' s' r hr ht
  have hidle : r ≠ A.idle := by
    intro heq
    have hs := hreceives.state
    rw [heq, h.idle.2] at hs
    exact absurd hs (by decide)
  have hresumable : (f (A.tasks r)).Resumable := by
    unfold Task.Resumable
    rw [hcontext]
    exact ⟨hipc, hmsg⟩
  unfold wake
  constructor <;> grind [Inv, Paused, Task.Receives, Task.Calls]

/-- A task in a queue has not the state of the idle task. -/
theorem Inv.not_idle (h : A.Inv N) {side : QueueSide} (ht : t ∈ A.waiting e side) :
    t ≠ A.idle := by
  have hidle := h.idle
  cases side with
  | receiver => grind [Inv, Task.Receives]
  | sender => grind [Inv, Task.Sends, Task.Notifies]

/-- A sender is woken, or a caller that no receiver has met. -/
theorem Inv.wakeSender (h : A.Inv N) (hp : A.Proper) (ht : t ∈ A.waiting e .sender)
    (hsends : (A.tasks t).Sends e)
    (hstate : (f (A.tasks t)).state = .ready) (hcallee : (f (A.tasks t)).calleeTask = none)
    (hcaller : (f (A.tasks t)).callerTask = (A.tasks t).callerTask)
    (hcontext : (f (A.tasks t)).context = (A.tasks t).context)
    (hipc : (f (A.tasks t)).ipcState = .none ∨ (f (A.tasks t)).ipcState = .canceled)
    (hevent : (f (A.tasks t)).eventType = .none) (hmsg : (f (A.tasks t)).ipcMsgState = .empty) :
    ((A.dequeue t e .sender).wake t f).Inv N := by
  have hone := fun e' s' ht' => hp.one e .sender e' s' t ht ht'
  have hidle := h.not_idle ht
  have hresumable : (f (A.tasks t)).Resumable := by
    unfold Task.Resumable
    rw [hcontext]
    rcases hsends.kind with hk | hk
    · rw [hk.2]
      exact ⟨hipc, hevent, hmsg⟩
    · rw [hk.2.2]
      exact ⟨hipc, hevent, hmsg⟩
  unfold wake
  constructor <;> grind [Inv, Paused, Task.Sends, Task.Calls]

/-- A task leaves a queue, and waits on. -/
theorem Inv.dequeue (h : A.Inv N) (hp : A.Proper) {side : QueueSide} :
    (A.dequeue t e side).Inv N := by
  constructor <;> grind [Inv]

/-- The current task gives the processor to a task that was ready. -/
theorem Inv.swap (h : A.Inv N) (hp : A.Proper) (hu : A.User) (ht : t ∈ A.ready)
    (hstate : (f (A.tasks t)).state = .running)
    (hcallee : (f (A.tasks t)).calleeTask = (A.tasks t).calleeTask)
    (hcaller : (f (A.tasks t)).callerTask = (A.tasks t).callerTask)
    (hstate' : (g (A.tasks A.current)).state = .ready)
    (hcallee' : (g (A.tasks A.current)).calleeTask = (A.tasks A.current).calleeTask)
    (hcaller' : (g (A.tasks A.current)).callerTask = (A.tasks A.current).callerTask)
    (hresumable : (g (A.tasks A.current)).Resumable) :
    ((A.dropReady t).swap t f g).Inv N := by
  have hself := hu.notQueued
  have hready := (h.ready t).mp ht
  have hne : t ≠ A.current := by
    intro heq
    exact hu.notReady (heq ▸ hready.1)
  have hnd := hp.ready
  unfold Queued at hself
  unfold Desk.swap
  constructor <;> grind [Inv, User, Paused, Task.Receives, Task.Sends, Task.Notifies, Task.Calls,
    List.Nodup.mem_erase_iff]

theorem Inv.handOver (h : A.Inv N) (hp : A.Proper) (hu : A.User) (ht : t ∈ A.ready) :
    ((A.dropReady t).handOver t).Inv N :=
  h.swap hp hu ht rfl rfl rfl rfl rfl rfl trivial

theorem SwitchedIn.handOver (h : A.Inv N) (hu : A.User) (ht : t ∈ A.ready) :
    ((A.dropReady t).handOver t).SwitchedIn := by
  have hready := (h.ready t).mp ht
  have hne : t ≠ A.current := by
    intro heq
    exact hu.notReady (heq ▸ hready.1)
  have hresumable := h.resumable t hne hready.2 (Or.inl hready.1)
  have htask : ((A.dropReady t).handOver t).tasks t = { A.tasks t with state := .running } := by
    unfold Desk.handOver Desk.swap
    simp [hne]
  right
  show (((A.dropReady t).handOver t).tasks t).state = .running ∧ _
  rw [show ((A.dropReady t).handOver t).current = t from rfl, htask]
  exact ⟨rfl, hresumable⟩

/-- The current task, which no queue and no link holds unless it is dead, gives the processor
to the idle task. -/
theorem Inv.park (h : A.Inv N) (hne : A.current ≠ A.idle)
    (hself : ∀ e side, A.current ∈ A.waiting e side → (A.tasks A.current).state = .killed)
    (hcallee : (A.tasks A.current).calleeTask = none)
    (hstate : (f (A.tasks A.current)).state = (A.tasks A.current).state)
    (hendpoint : (f (A.tasks A.current)).endpoint = (A.tasks A.current).endpoint)
    (hevent : (f (A.tasks A.current)).eventType = (A.tasks A.current).eventType)
    (hcallee' : (f (A.tasks A.current)).calleeTask = (A.tasks A.current).calleeTask)
    (hcaller' : (f (A.tasks A.current)).callerTask = (A.tasks A.current).callerTask)
    (hresumable : Paused (A.tasks A.current) → (f (A.tasks A.current)).Resumable) :
    ((A.mapTask A.current f).run A.idle).Inv N := by
  constructor <;> grind [Inv, Paused, Task.Receives, Task.Sends, Task.Notifies]

theorem Inv.resched (h : A.Inv N) (hne : A.current ≠ A.idle)
    (hself : ∀ e side, A.current ∈ A.waiting e side → (A.tasks A.current).state = .killed)
    (hcallee : (A.tasks A.current).calleeTask = none) {resume : Resume}
    (hresumable : Paused (A.tasks A.current) →
      ({ A.tasks A.current with context := resume } : Task).Resumable) :
    (A.resched resume).Inv N :=
  h.park (f := fun task => { task with context := resume }) hne hself hcallee rfl rfl rfl rfl rfl
    hresumable

/-- The current task waits in a queue. -/
theorem Inv.block (h : A.Inv N) (hu : A.User) {side : QueueSide}
    (hwaits : side = .receiver ∧ (f (A.tasks A.current)).Receives e ∨
      side = .sender ∧ (f (A.tasks A.current)).Sends e)
    (hcaller : (f (A.tasks A.current)).callerTask = (A.tasks A.current).callerTask)
    (hempty : ∀ side', side' ≠ side → A.waiting e side' = []) :
    (((A.mapTask A.current f).enqueue A.current e side).run A.idle).Inv N := by
  have hself := hu.notQueued
  unfold Queued at hself
  constructor <;> grind [Inv, User, Paused, Task.Receives, Task.Sends, Task.Calls]

/-- A receiver takes the call of a sender. -/
theorem Inv.bindReceive (h : A.Inv N) (hp : A.Proper) (hu : A.User)
    (hs : s ∈ A.waiting e .sender) (hsends : (A.tasks s).Sends e)
    (hcalls : (A.tasks s).ipcState = .calling)
    (hnone : (A.tasks A.current).callerTask = none) :
    (((A.dequeue s e .sender).mapTask s fun t =>
      { t with calleeTask := some A.current }).mapTask A.current fun t =>
      { t with callerTask := some s }).Inv N := by
  have hself := hu.notQueued
  have hone := fun e' s' ht' => hp.one e .sender e' s' s hs ht'
  unfold Queued at hself
  constructor <;> grind [Inv, User, Paused, Task.Sends, Task.Calls]

/-- The caller of the current task is released. -/
theorem Inv.release (h : A.Inv N) (hu : A.User) (hc : (A.tasks A.current).callerTask = some c)
    (hstate : (f (A.tasks c)).state = .ready) (hcallee : (f (A.tasks c)).calleeTask = none)
    (hcaller : (f (A.tasks c)).callerTask = (A.tasks c).callerTask)
    (hcontext : (f (A.tasks c)).context = (A.tasks c).context)
    (hipc : (f (A.tasks c)).ipcState = .none ∨ (f (A.tasks c)).ipcState = .canceled)
    (hevent : (f (A.tasks c)).eventType = .none) (hmsg : (f (A.tasks c)).ipcMsgState = .empty)
    (hstate' : (g (A.tasks A.current)).state = (A.tasks A.current).state)
    (hcallee' : (g (A.tasks A.current)).calleeTask = (A.tasks A.current).calleeTask)
    (hcaller' : (g (A.tasks A.current)).callerTask = none) :
    (((A.mapTask c f).mapTask A.current g).pushReady c).Inv N := by
  have hcall := h.caller _ _ hc
  have hcalls := (h.callee c _ hcall.1 hcall.2).1
  have hresumable : (f (A.tasks c)).Resumable := by
    unfold Task.Resumable
    rw [hcontext, hcalls.context]
    exact ⟨hipc, hevent, hmsg⟩
  have hself := hu.notQueued
  unfold Queued at hself
  constructor <;> grind [Inv, User, Paused, Task.Calls, Task.Receives, Task.Sends, Task.Notifies]

/-- A call meets a receiver. -/
theorem Inv.bindCall (h : A.Inv N) (hp : A.Proper) (hu : A.User) (hr : r ∈ A.waiting e .receiver)
    (hstate : (f (A.tasks r)).state = .ready) (hcallee : (f (A.tasks r)).calleeTask = none)
    (hcaller : (f (A.tasks r)).callerTask = some A.current)
    (hcontext : (f (A.tasks r)).context = .ipcReceive)
    (hipc : (f (A.tasks r)).ipcState = .none ∨ (f (A.tasks r)).ipcState = .canceled)
    (hmsg : (f (A.tasks r)).ipcMsgState = .empty)
    (hcalls : (g (A.tasks A.current)).Calls)
    (hcallee' : (g (A.tasks A.current)).calleeTask = some r)
    (hcaller' : (g (A.tasks A.current)).callerTask = (A.tasks A.current).callerTask) :
    ((((A.dequeue r e .receiver).mapTask r f).mapTask A.current g).pushReady r |>.run A.idle).Inv
      N := by
  have hreceives := h.receivers e r hr
  have hone := fun e' s' ht => hp.one e .receiver e' s' r hr ht
  have hidle := h.not_idle hr
  have hresumable : (f (A.tasks r)).Resumable := by
    unfold Task.Resumable
    rw [hcontext]
    exact ⟨hipc, hmsg⟩
  have hself := hu.notQueued
  have hne : r ≠ A.current := by
    rintro rfl
    exact hself ⟨_, _, hr⟩
  have hcur : ∀ u, (A.tasks u).callerTask ≠ some A.current := by
    intro u hu'
    have hcall := (h.caller _ _ hu').1
    rw [hu.callee] at hcall
    exact absurd hcall (by simp)
  have hfree : ∀ u, (A.tasks u).calleeTask = some r → (A.tasks u).state = .killed := by
    intro u hu'
    by_contra halive
    have hcall := (h.callee _ _ hu' halive).2
    rw [hreceives.caller] at hcall
    exact absurd hcall (by simp)
  have hwaiting := hcalls.state
  have hrcallee := hreceives.callee
  unfold Queued at hself
  constructor
  case callee =>
    intro t s ht halive
    have hts := h.callee t s
    by_cases htc : t = A.current
    · grind
    · by_cases htr : t = r
      · grind
      · grind
  case caller =>
    intro s t hst
    have hts := h.caller s t
    by_cases hsr : s = r
    · grind
    · by_cases htr : t = r
      · grind
      · grind
  all_goals grind [Inv, User, Paused, Task.Receives]

/-! ### The processor -/

/-- The current task becomes ready. -/
theorem Inv.ready_current (h : A.Inv N) (hu : A.User)
    (hcallee : (f (A.tasks A.current)).calleeTask = none)
    (hcaller : (f (A.tasks A.current)).callerTask = (A.tasks A.current).callerTask)
    (hstate : (f (A.tasks A.current)).state = .ready) :
    (A.wake A.current f).Inv N := by
  have hself := hu.notQueued
  unfold Queued at hself
  unfold wake
  constructor <;> grind [Inv, User]

/-- A ready task gets the processor from the idle task. -/
def dispatch (A : Desk) (t : TaskPtr) : Desk :=
  ((A.dropReady t).run t).mapTask t fun task => { task with state := .running }

theorem Inv.dispatch_of (h : A.Inv N) (hp : A.Proper) (ht : t ∈ A.ready)
    (hstate : (f (A.tasks t)).state = .running)
    (hcallee : (f (A.tasks t)).calleeTask = (A.tasks t).calleeTask)
    (hcaller : (f (A.tasks t)).callerTask = (A.tasks t).callerTask)
    (hcurrent : A.current = A.idle) :
    (((A.dropReady t).run t).mapTask t f).Inv N := by
  have hready := (h.ready t).mp ht
  have hnd := hp.ready
  constructor <;> grind [Inv, Paused, Task.Receives, Task.Sends, Task.Notifies, Task.Calls,
    List.Nodup.mem_erase_iff]

theorem Inv.dispatch (h : A.Inv N) (hp : A.Proper) (ht : t ∈ A.ready)
    (hcurrent : A.current = A.idle) : (A.dispatch t).Inv N :=
  h.dispatch_of hp ht rfl rfl rfl hcurrent

theorem SwitchedIn.dispatch (h : A.Inv N) (ht : t ∈ A.ready) (hcurrent : A.current = A.idle) :
    (A.dispatch t).SwitchedIn := by
  have hready := (h.ready t).mp ht
  have hresumable := h.resumable t (hcurrent ▸ hready.2) hready.2 (Or.inl hready.1)
  have htask : (A.dispatch t).tasks t = { A.tasks t with state := .running } := by
    unfold Desk.dispatch
    simp
  right
  show ((A.dispatch t).tasks t).state = .running ∧ _
  rw [show (A.dispatch t).current = t from rfl, htask]
  exact ⟨rfl, hresumable⟩

/-! ### Suspension, resumption and death -/

/-- A task that is nobody's caller, and alive, waits for no reply. -/
theorem Inv.callee_none (h : A.Inv N) (hcalls : ∀ s, (A.tasks s).callerTask ≠ some t)
    (halive : (A.tasks t).state ≠ .killed) : (A.tasks t).calleeTask = none := by
  cases hcallee : (A.tasks t).calleeTask with
  | none => rfl
  | some s => exact absurd (h.callee t s hcallee halive).2 (hcalls s)

/-- A task that does not wait is nobody's caller. -/
theorem Inv.not_caller (h : A.Inv N) (hwaiting : (A.tasks t).state ≠ .waiting) :
    ∀ s, (A.tasks s).callerTask ≠ some t := by
  intro s hs
  have hcall := h.caller s t hs
  exact hwaiting (h.callee t s hcall.1 hcall.2).1.state

/-- A store to the state of a task that is not ready, and not ready afterwards. -/
theorem Inv.restate (h : A.Inv N) (ht : t ∉ A.ready) (hidle : t ≠ A.idle) (hq : ¬ A.Queued t)
    (hwaiting : (A.tasks t).state ≠ .waiting) (halive : (A.tasks t).state ≠ .killed)
    (hpaused : Paused (f (A.tasks t)) → Paused (A.tasks t))
    (hstate : (f (A.tasks t)).state ≠ .ready)
    (hresumable : (A.tasks t).Resumable → (f (A.tasks t)).Resumable)
    (hcallee : (f (A.tasks t)).calleeTask = (A.tasks t).calleeTask)
    (hcaller : (f (A.tasks t)).callerTask = (A.tasks t).callerTask) :
    (A.mapTask t f).Inv N := by
  have hfree := h.callee_none (h.not_caller hwaiting) halive
  unfold Queued at hq
  constructor <;> grind [Inv, Task.Calls]

/-- A store to a field that the discipline does not speak of. -/
theorem Inv.keep (h : A.Inv N) (hstate : (f (A.tasks t)).state = (A.tasks t).state)
    (hipc : (f (A.tasks t)).ipcState = (A.tasks t).ipcState)
    (hendpoint : (f (A.tasks t)).endpoint = (A.tasks t).endpoint)
    (hevent : (f (A.tasks t)).eventType = (A.tasks t).eventType)
    (hmsg : (f (A.tasks t)).ipcMsgState = (A.tasks t).ipcMsgState)
    (hcontext : (f (A.tasks t)).context = (A.tasks t).context)
    (hcallee : (f (A.tasks t)).calleeTask = (A.tasks t).calleeTask)
    (hcaller : (f (A.tasks t)).callerTask = (A.tasks t).callerTask) :
    (A.mapTask t f).Inv N := by
  have hresumable : (A.tasks t).Resumable → (f (A.tasks t)).Resumable := by
    unfold Task.Resumable
    rw [hcontext, hipc, hevent, hmsg]
    exact id
  constructor <;> grind [Inv, Paused, Task.Receives, Task.Sends, Task.Notifies, Task.Calls]

/-- A ready task is suspended. -/
theorem Inv.suspendReady (h : A.Inv N) (hp : A.Proper) (ht : t ∈ A.ready)
    (hstate : (f (A.tasks t)).state = .suspended)
    (hresumable : (A.tasks t).Resumable → (f (A.tasks t)).Resumable)
    (hcallee : (f (A.tasks t)).calleeTask = (A.tasks t).calleeTask)
    (hcaller : (f (A.tasks t)).callerTask = (A.tasks t).callerTask) :
    ((A.dropReady t).mapTask t f).Inv N := by
  have hready := (h.ready t).mp ht
  have hnd := hp.ready
  constructor <;> grind [Inv, Paused, Task.Receives, Task.Sends, Task.Notifies, Task.Calls,
    List.Nodup.mem_erase_iff]

/-- A suspended task becomes ready. -/
theorem Inv.resume (h : A.Inv N) (hne : t ≠ A.current) (hidle : t ≠ A.idle)
    (hsuspended : (A.tasks t).state = .suspended)
    (hstate : (f (A.tasks t)).state = .ready)
    (hresumable : (A.tasks t).Resumable → (f (A.tasks t)).Resumable)
    (hcallee : (f (A.tasks t)).calleeTask = (A.tasks t).calleeTask)
    (hcaller : (f (A.tasks t)).callerTask = (A.tasks t).callerTask) :
    (A.wake t f).Inv N := by
  unfold wake
  constructor <;> grind [Inv, Paused, Task.Receives, Task.Sends, Task.Notifies, Task.Calls]

/-- A task that waits in no queue, and for no reply, is killed. -/
theorem Inv.die (h : A.Inv N) (hp : A.Proper) (hidle : t ≠ A.idle)
    (hq : ∀ e side, t ∈ A.waiting e side → (A.tasks t).state = .killed)
    (hcalls : ∀ s, (A.tasks s).callerTask ≠ some t)
    (hstate : (f (A.tasks t)).state = .killed)
    (hendpoint : (f (A.tasks t)).endpoint = (A.tasks t).endpoint)
    (hevent : (f (A.tasks t)).eventType = (A.tasks t).eventType)
    (hcallee : (f (A.tasks t)).calleeTask = (A.tasks t).calleeTask)
    (hcaller : (f (A.tasks t)).callerTask = (A.tasks t).callerTask) :
    ((A.dropReady t).mapTask t f).Inv N := by
  have hnd := hp.ready
  have hfree := h.callee_none hcalls
  constructor <;> grind [Inv, Paused, Task.Receives, Task.Sends, Task.Notifies,
    List.Nodup.mem_erase_iff]

/-- A caller that waits for its reply is killed. -/
theorem Inv.dieCalling (h : A.Inv N) (hdeaths : N.deaths) (hc : (A.tasks s).callerTask = some t)
    (hstate : ∀ task, (f task).state = .killed)
    (hcallee : ∀ task, (f task).calleeTask = task.calleeTask)
    (hcaller : ∀ task, (f task).callerTask = task.callerTask) :
    ((A.mapTask s fun task => { task with callerTask := none }).mapTask t f).Inv N := by
  have hcall := h.caller _ _ hc
  have hcalls := (h.callee t _ hcall.1 hcall.2).1
  have hwaiting := hcalls.state
  have hcalling := hcalls.ipcState
  have hnotQueued : ∀ e side, t ∉ A.waiting e side := by
    intro e side ht
    have hcallee := hcall.1
    cases side <;> grind [Inv, Task.Receives, Task.Sends, Task.Notifies]
  -- What the callee keeps when it loses its caller.
  obtain ⟨g, hg⟩ : ∃ g : Task → Task, g = fun task => { task with callerTask := none } := ⟨_, rfl⟩
  have hstate' : (g (A.tasks s)).state = (A.tasks s).state := hg ▸ rfl
  have hcallee' : (g (A.tasks s)).calleeTask = (A.tasks s).calleeTask := hg ▸ rfl
  have hcaller' : (g (A.tasks s)).callerTask = none := hg ▸ rfl
  have hcontext' : (g (A.tasks s)).context = (A.tasks s).context := hg ▸ rfl
  have hresumable' : (g (A.tasks s)).Resumable ↔ (A.tasks s).Resumable := hg ▸ Iff.rfl
  have hsends' : ∀ e, (A.tasks s).Sends e → (g (A.tasks s)).Sends e :=
    fun e hs => hg ▸ ⟨hs.state, hs.kind, hs.endpoint, hs.callee, hs.eventType⟩
  have hnotifies' : ∀ e, (A.tasks s).Notifies e → (g (A.tasks s)).Notifies e :=
    fun e hs => hg ▸ ⟨hs.state, hs.endpoint, hs.eventType⟩
  have hcalls' : (A.tasks s).Calls → (g (A.tasks s)).Calls :=
    fun hs => hg ▸ ⟨hs.state, hs.ipcState, hs.eventType, hs.msgState, hs.endpoint, hs.context⟩
  have hkilled := hstate (A.tasks t)
  have hkilled' := hstate (g (A.tasks s))
  have hkeep := hcaller (A.tasks t)
  have hkeep' := hcaller (g (A.tasks s))
  have hkeepCallee := hcallee (A.tasks t)
  have hkeepCallee' := hcallee (g (A.tasks s))
  rw [← hg]
  clear hg hstate hcaller hcallee
  constructor <;> grind [Inv, Paused, Task.Receives]

/-- A dead task waits for a receiver of its notice. -/
theorem Inv.notice (h : A.Inv N) (hN : N.notices) (hq : ¬ A.Queued t) (hidle : t ≠ A.idle)
    (hkilled : (A.tasks t).state = .killed)
    (hempty : A.waiting e .receiver = [])
    (hnotifies : (f (A.tasks t)).Notifies e)
    (hcallee : (f (A.tasks t)).calleeTask = (A.tasks t).calleeTask)
    (hcaller : (f (A.tasks t)).callerTask = (A.tasks t).callerTask) :
    ((A.mapTask t f).enqueue t e .sender).Inv N := by
  unfold Queued at hq
  constructor <;> grind [Inv, Paused, Task.Notifies, Task.Calls]

end Changes

end Desk

end Caprese
