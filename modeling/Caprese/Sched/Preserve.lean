import Caprese.Sched.Effect

/-!
# `Caprese.Sched.Preserve`: operations keep the joint discipline

`Effect.inv` says that an orderly operation keeps `Inv`, and leaves a task in user mode or one
that was switched in. `GoOnEffect.inv` says the same of the task that goes on. Each clause of
`Effect` is put together from the changes of `Sched.Invariant`.
-/

set_option autoImplicit false

namespace Caprese

open Lib Prog

namespace Desk

/-- What holds of the current task after a step. -/
def Answered (A : Desk) : Option Bool → Prop
  | some _ => A.User
  | none => A.SwitchedIn

section Parts

variable {N : Allows} {A B : Desk} {t r s c : TaskPtr} {e : EndpointPtr} {side : QueueSide}
  {f g : Task → Task} {answer : Option Bool}

/-! ### Proper desks and users -/

theorem Proper.mapTask (hp : A.Proper) : (A.mapTask t f).Proper := ⟨hp.ready, hp.waiting, hp.one⟩

theorem Proper.deliver (hp : A.Proper) : (A.deliver t r).Proper := ⟨hp.ready, hp.waiting, hp.one⟩

theorem Proper.dequeue (hp : A.Proper) : (A.dequeue t e side).Proper where
  ready := hp.ready
  waiting e' s' := by
    unfold Desk.dequeue
    rw [setWaiting_waiting]
    split
    · exact (hp.waiting e side).erase t
    · exact hp.waiting e' s'
  one := by
    intro e₁ s₁ e₂ s₂ u h₁ h₂
    rw [mem_dequeue hp] at h₁ h₂
    exact hp.one _ _ _ _ u h₁.1 h₂.1

theorem Proper.pushReady (hp : A.Proper) (ht : t ∉ A.ready) : (A.pushReady t).Proper where
  ready := by
    rw [pushReady_ready]
    exact List.nodup_append.mpr ⟨hp.ready, List.nodup_singleton t, by
      intro u hu v hv heq
      rw [List.mem_singleton.mp hv] at heq
      exact ht (heq ▸ hu)⟩
  waiting := hp.waiting
  one := hp.one

theorem Inv.deliver (h : A.Inv N) : (A.deliver t r).Inv N :=
  ⟨h.receivers, h.senders, h.excl, h.callee, h.caller, h.dead, h.ready, h.resumable, h.idle⟩

theorem User.deliver (hu : A.User) : (A.deliver t r).User :=
  ⟨hu.notIdle, hu.notReady, hu.alive, hu.callee, hu.notQueued⟩

theorem User.dequeue (hu : A.User) (hp : A.Proper) : (A.dequeue t e side).User := by
  refine ⟨hu.notIdle, hu.notReady, hu.alive, hu.callee, ?_⟩
  rintro ⟨e', s', ht⟩
  rw [mem_dequeue hp] at ht
  exact hu.notQueued ⟨e', s', ht.1⟩

/-- The current task is not told of a store to another one. -/
theorem User.mapTask (hu : A.User) (hne : t ≠ A.current) : (A.mapTask t f).User := by
  have hsame : (A.mapTask t f).tasks A.current = A.tasks A.current := by
    rw [mapTask_tasks, if_neg (Ne.symm hne)]
  refine ⟨hu.notIdle, ?_, ?_, ?_, hu.notQueued⟩
  · rw [mapTask_current, hsame]
    exact hu.notReady
  · rw [mapTask_current, hsame]
    exact hu.alive
  · rw [mapTask_current, hsame]
    exact hu.callee

theorem User.pushReady (hu : A.User) : (A.pushReady t).User :=
  ⟨hu.notIdle, hu.notReady, hu.alive, hu.callee, hu.notQueued⟩

theorem User.dropReady (hu : A.User) : (A.dropReady t).User :=
  ⟨hu.notIdle, hu.notReady, hu.alive, hu.callee, hu.notQueued⟩

theorem User.wake (hu : A.User) (hne : t ≠ A.current) : (A.wake t f).User :=
  (hu.mapTask hne).pushReady

theorem First.mem (h : A.First e side t) : t ∈ A.waiting e side := List.mem_of_head? h

theorem User.ne_of_mem (hu : A.User) (ht : t ∈ A.waiting e side) : t ≠ A.current := by
  rintro rfl
  exact hu.notQueued ⟨e, side, ht⟩

theorem Inv.not_ready_of_mem (h : A.Inv N) (ht : t ∈ A.waiting e side) : t ∉ A.ready := by
  intro hready
  have hstate := ((h.ready t).mp hready).1
  cases side with
  | receiver =>
    rw [(h.receivers e t ht).state] at hstate
    exact absurd hstate (by decide)
  | sender =>
    rcases h.senders e t ht with hs | hs
    · rw [hs.state] at hstate
      exact absurd hstate (by decide)
    · rw [hs.2.state] at hstate
      exact absurd hstate (by decide)

theorem wake_tasks {u : TaskPtr} :
    (A.wake t f).tasks u = if u = t then f (A.tasks t) else A.tasks u := upd_apply _ _ _ _

/-- To be woken and to leave the ready queue at once is the store alone. -/
theorem wake_dropReady (ht : t ∉ A.ready) : (A.wake t f).dropReady t = A.mapTask t f := by
  have herase : (A.ready ++ [t]).erase t = A.ready := by
    rw [List.erase_append_right _ ht, List.erase_cons_head, List.append_nil]
  show { A.mapTask t f with ready := (A.ready ++ [t]).erase t } = A.mapTask t f
  rw [herase]
  rfl

/-- A task that is woken gets the processor at once. -/
theorem Inv.wakeThenRun (h : (A.wake t f).Inv N) (hp : A.Proper) (hu : A.User)
    (ht : t ∉ A.ready) (hne : t ≠ A.current) :
    ((A.mapTask t f).handOver t).Inv N ∧ ((A.mapTask t f).handOver t).SwitchedIn := by
  have hmem : t ∈ (A.wake t f).ready := List.mem_append_right _ (List.mem_singleton_self t)
  have hp' : (A.wake t f).Proper := (hp.mapTask (t := t) (f := f)).pushReady ht
  have hu' : (A.wake t f).User := hu.wake hne
  rw [← wake_dropReady ht]
  exact ⟨h.handOver hp' hu' hmem, SwitchedIn.handOver h hu' hmem⟩

/-- The last store of the current task and its leaving the processor are one store. -/
theorem mapTask_resched {resume : Resume} : (A.mapTask A.current f).resched resume
    = (A.mapTask A.current fun task => { f task with context := resume }).run A.idle := by
  rw [← mapTask_mapTask (A := A) (g := fun task => { task with context := resume })]
  rfl

/-- The current task waits at an endpoint whose other queue is empty. -/
theorem Inv.stores_resched {resume : Resume} (h : A.Inv N) (hu : A.User)
    (hwaits : side = .receiver ∧
        ({ f (A.tasks A.current) with context := resume } : Task).Receives e ∨
      side = .sender ∧ ({ f (A.tasks A.current) with context := resume } : Task).Sends e)
    (hcaller : (f (A.tasks A.current)).callerTask = (A.tasks A.current).callerTask)
    (hempty : ∀ side', side' ≠ side → A.waiting e side' = []) :
    (((A.stores f).enqueue A.current e side).resched resume).Inv N ∧
      (((A.stores f).enqueue A.current e side).resched resume).SwitchedIn := by
  have heq : ((A.stores f).enqueue A.current e side).resched resume
      = ((A.mapTask A.current fun task => { f task with context := resume }).enqueue A.current e
        side).run A.idle := by
    show ((A.mapTask A.current f).resched resume).enqueue A.current e side = _
    rw [mapTask_resched]
    rfl
  rw [heq]
  exact ⟨h.block hu hwaits hcaller hempty, Or.inl rfl⟩

/-! ### Messages -/

theorem SendEffect.inv {loose : Prop} {b : Bool} (h : A.Inv N) (hp : A.Proper) (hu : A.User)
    (he : A.SendEffect loose b e answer B) : B.Inv N ∧ B.Answered answer := by
  cases he with
  | @meet r sent first _ =>
    have hA : ∀ D : Desk, D = A.passed sent r A.current →
        D.Inv N ∧ D.Proper ∧ D.User ∧ r ∈ D.waiting e .receiver := by
      rintro D rfl
      unfold passed
      split
      · exact ⟨h.deliver, hp.deliver, hu.deliver, first.mem⟩
      · exact ⟨h, hp, hu, first.mem⟩
    obtain ⟨hD, hpD, huD, hr⟩ := hA _ rfl
    have hreceives := hD.receivers e r hr
    have hwake := hD.wakeReceiver (f := Task.received) hpD hr rfl hreceives.callee
      hreceives.caller hreceives.context (Or.inl rfl) rfl
    exact hwake.wakeThenRun hpD.dequeue (huD.dequeue hpD) (hD.not_ready_of_mem hr)
      (huD.ne_of_mem hr)
  | fail => exact ⟨h, hu⟩
  | block empty _ =>
    refine h.stores_resched hu (Or.inr ⟨rfl, rfl, Or.inl ⟨rfl, rfl⟩, rfl, hu.callee, rfl⟩) rfl ?_
    intro side' hne
    cases side' with
    | sender => exact absurd rfl hne
    | receiver => exact empty
  | refuse => exact ⟨h, hu⟩

theorem abandon_current : A.abandon.current = A.current := by
  unfold abandon
  split <;> rfl

/-- What `abandon` leaves: the current task has no caller. -/
theorem Inv.abandon (h : A.Inv N) (hp : A.Proper) (hu : A.User) :
    A.abandon.Inv N ∧ A.abandon.Proper ∧ A.abandon.User ∧
      (A.abandon.tasks A.current).callerTask = none ∧
      (A.abandon.tasks A.current).ipcMsgState = (A.tasks A.current).ipcMsgState := by
  unfold Desk.abandon
  split
  · rename_i hc
    exact ⟨h, hp, hu, hc, rfl⟩
  · rename_i c hc
    have hcall := h.caller _ _ hc
    have hcalls := (h.callee c _ hcall.1 hcall.2).1
    have hne : c ≠ A.current := by
      rintro rfl
      rw [hu.callee] at hcall
      exact absurd hcall.1 (by simp)
    have hready : c ∉ A.ready := by
      intro hready
      have hstate := ((h.ready c).mp hready).1
      rw [hcalls.state] at hstate
      exact absurd hstate (by decide)
    refine ⟨h.release hu hc rfl rfl rfl rfl (Or.inr rfl) rfl rfl rfl rfl rfl,
      hp.mapTask.mapTask.pushReady hready, ?_, ?_, ?_⟩
    · have hu' : (A.mapTask c (Task.released .canceled)).User := hu.mapTask hne
      exact (hu'.store hu'.callee hu'.notReady hu'.alive).pushReady
    · simp
    · simp [Ne.symm hne]

/-- A sender is no notice. -/
theorem Inv.sends (h : A.Inv N) (hs : s ∈ A.waiting e .sender)
    (halive : (A.tasks s).state ≠ .killed) : (A.tasks s).Sends e := by
  rcases h.senders e s hs with hsends | hdead
  · exact hsends
  · exact absurd hdead.2.state halive

theorem ReceiveEffect.inv {b : Bool} (h : A.Inv N) (hp : A.Proper) (hu : A.User)
    (hnone : (A.tasks A.current).callerTask = none)
    (hmsg : (A.tasks A.current).ipcMsgState = .longSize) (he : A.ReceiveEffect b e answer B) :
    B.Inv N ∧ B.Answered answer := by
  cases he with
  | fail first => exact ⟨h.dequeue hp, hu.dequeue hp⟩
  | @bind s first sends calling =>
    have hbind := h.deliver.bindReceive (A := A.deliver A.current s) hp.deliver hu.deliver
      first.mem sends calling hnone
    have hu' : (((A.deliver A.current s).dequeue s e .sender).mapTask s fun task =>
        { task with calleeTask := some A.current }).User :=
      (hu.deliver.dequeue hp.deliver).mapTask (hu.ne_of_mem first.mem)
    exact ⟨hbind, hu'.store hu'.callee hu'.notReady hu'.alive⟩
  | @take s first sends calling =>
    have hD : (A.deliver A.current s).Inv N := h.deliver
    have hwake := hD.wakeSender (f := fun task => task.sent .none) hp.deliver first.mem sends rfl
      sends.callee rfl rfl (Or.inl rfl) rfl rfl
    exact hwake.wakeThenRun hp.deliver.dequeue (hu.deliver.dequeue hp.deliver)
      (h.not_ready_of_mem first.mem) (hu.ne_of_mem first.mem)
  | @notice s f first dead told =>
    have hu' : (A.dequeue s e .sender).User := hu.dequeue hp
    have hf : (f (A.tasks A.current)).calleeTask = (A.tasks A.current).calleeTask ∧
        (f (A.tasks A.current)).callerTask = (A.tasks A.current).callerTask ∧
        (f (A.tasks A.current)).state = (A.tasks A.current).state := by
      rcases told with rfl | rfl
      · exact ⟨rfl, rfl, rfl⟩
      · exact ⟨rfl, rfl, rfl⟩
    refine ⟨(h.dequeue hp).store hu' (hf.1.trans hu.callee) hf.2.1 ?_,
      hu'.store (hf.1.trans hu.callee) ?_ ?_⟩
    · exact fun hready => hu.notReady (hf.2.2.symm.trans hready)
    · exact fun hready => hu.notReady (hf.2.2.symm.trans hready)
    · exact fun hkilled => hu.alive (hf.2.2.symm.trans hkilled)
  | block empty _ =>
    refine h.stores_resched hu (Or.inl ⟨rfl, rfl, rfl, rfl, hu.callee, hnone, hmsg, rfl⟩) rfl ?_
    intro side' hne
    cases side' with
    | sender => exact empty
    | receiver => exact absurd rfl hne
  | refuse => exact ⟨h, hu⟩

theorem ReplyEffect.inv {msg : Nat} (h : A.Inv N) (hp : A.Proper) (hu : A.User)
    (he : A.ReplyEffect msg answer B) : B.Inv N ∧ B.Proper ∧ B.Answered answer := by
  cases he with
  | none _ => exact ⟨h, hp, hu⟩
  | fail _ =>
    exact ⟨h.store hu hu.callee rfl hu.notReady, hp.mapTask,
      hu.store hu.callee hu.notReady hu.alive⟩
  | @done c hc =>
    have hS : (A.stores (Task.longMsg msg)).Inv N := h.store hu hu.callee rfl hu.notReady
    have huS : (A.stores (Task.longMsg msg)).User := hu.store hu.callee hu.notReady hu.alive
    have hcall := h.caller _ _ hc
    have hne : c ≠ A.current := by
      rintro rfl
      rw [hu.callee] at hcall
      exact absurd hcall.1 (by simp)
    have hready : c ∉ A.ready := by
      intro hready
      have hstate := ((h.ready c).mp hready).1
      rw [(h.callee c _ hcall.1 hcall.2).1.state] at hstate
      exact absurd hstate (by decide)
    have hc' : ((A.stores (Task.longMsg msg)).tasks A.current).callerTask = some c := by
      show ((A.mapTask A.current (Task.longMsg msg)).tasks A.current).callerTask = some c
      rw [mapTask_tasks, if_pos rfl]
      exact hc
    have hu' : (((A.stores (Task.longMsg msg)).deliver c A.current).mapTask c
        (Task.released .none)).User := huS.deliver.mapTask hne
    refine ⟨?_, hp.mapTask.deliver.mapTask.mapTask.pushReady hready, ?_⟩
    · exact hS.deliver.release (A := (A.stores (Task.longMsg msg)).deliver c A.current)
        huS.deliver hc' rfl rfl rfl rfl (Or.inl rfl) rfl rfl rfl rfl rfl
    · exact (hu'.store hu'.callee hu'.notReady hu'.alive).pushReady

theorem CallEffect.inv (h : A.Inv N) (hp : A.Proper) (hu : A.User)
    (hstate : (A.tasks A.current).state = .waiting) (hipc : (A.tasks A.current).ipcState = .calling)
    (hevent : (A.tasks A.current).eventType = .send)
    (hmsg : (A.tasks A.current).ipcMsgState = .longSize)
    (hendpoint : (A.tasks A.current).endpoint = some e) (he : A.CallEffect e answer B) :
    B.Inv N ∧ B.Answered answer := by
  cases he with
  | fail => exact ⟨h, hu⟩
  | @bind r first =>
    have hD : (A.deliver r A.current).Inv N := h.deliver
    have hreceives := h.receivers e r first.mem
    have hbind := hD.bindCall (f := fun task => { task.received with callerTask := some A.current })
      (g := fun task => { task with calleeTask := some r, context := .ipcCall })
      hp.deliver hu.deliver first.mem rfl hreceives.callee rfl hreceives.context (Or.inl rfl) rfl
      ⟨hstate, hipc, hevent, hmsg, by simp [hendpoint], rfl⟩ rfl rfl
    have heq : ((((A.deliver r A.current).dequeue r e .receiver).mapTask r fun task =>
          { task.received with callerTask := some A.current }).mapTask A.current fun task =>
          { task with calleeTask := some r }).resched .ipcCall
        = ((((A.deliver r A.current).dequeue r e .receiver).mapTask r fun task =>
          { task.received with callerTask := some A.current }).mapTask A.current fun task =>
          { task with calleeTask := some r, context := .ipcCall }).run A.idle :=
      mapTask_resched (A := ((A.deliver r A.current).dequeue r e .receiver).mapTask r fun task =>
          { task.received with callerTask := some A.current })
    have hpush := congrArg (fun D : Desk => (D.pushReady r).Inv N) heq
    exact ⟨hpush.mpr hbind, Or.inl rfl⟩
  | block empty =>
    refine ⟨?_, Or.inl rfl⟩
    refine h.block (f := fun task => { task with context := .ipcCall }) hu (Or.inr ⟨rfl, hstate,
      Or.inr ⟨hipc, hmsg, rfl⟩, hendpoint, hu.callee, hevent⟩) rfl ?_
    intro side' hne
    cases side' with
    | sender => exact absurd rfl hne
    | receiver => exact empty

/-! ### Cancellation -/

/-- No notice waits at the endpoint. -/
def Alive (A : Desk) (e : EndpointPtr) : Prop :=
  ∀ t ∈ A.waiting e .sender, (A.tasks t).state ≠ .killed

theorem CancelTurn.inv (h : A.Inv N) (hp : A.Proper) (hu : A.User) (halive : A.Alive e)
    (ht : CancelTurn e side A B) : B.Inv N ∧ B.Proper ∧ B.User ∧ B.Alive e := by
  obtain ⟨t, first, rfl⟩ := ht
  have hmem := first.mem
  have hne := hu.ne_of_mem hmem
  have hready := h.not_ready_of_mem hmem
  refine ⟨?_, hp.dequeue.mapTask.pushReady hready, (hu.dequeue hp).wake hne, ?_⟩
  · cases side with
    | receiver =>
      have hreceives := h.receivers e t hmem
      exact h.wakeReceiver hp hmem rfl hreceives.callee hreceives.caller hreceives.context
        (Or.inr rfl) rfl
    | sender =>
      have hsends := h.sends hmem (halive t hmem)
      exact h.wakeSender hp hmem hsends rfl hsends.callee rfl rfl (Or.inr rfl) rfl rfl
  · intro u hu'
    have hu₁ := (mem_dequeue hp).mp hu'
    have hut : u ≠ t := by
      rintro rfl
      obtain ⟨-, hside⟩ := hp.one _ _ _ _ u hmem hu₁.1
      exact hu₁.2 ⟨rfl, hside.symm, rfl⟩
    show ((((A.dequeue t e side).mapTask t _).pushReady t).tasks u).state ≠ .killed
    rw [pushReady_tasks, mapTask_tasks, if_neg hut]
    exact halive u hu₁.1

theorem CancelLoop.inv (h : A.Inv N) (hp : A.Proper) (hu : A.User) (halive : A.Alive e)
    (hl : CancelLoop e side A B) : B.Inv N ∧ B.Proper ∧ B.User ∧ B.Alive e := by
  obtain ⟨hrun, -⟩ := hl
  induction hrun with
  | refl => exact ⟨h, hp, hu, halive⟩
  | tail _ hturn ih =>
    obtain ⟨h', hp', hu', halive'⟩ := ih
    exact CancelTurn.inv h' hp' hu' halive' hturn

theorem CancelEffect.inv (h : A.Inv N) (hp : A.Proper) (hu : A.User) (halive : A.Alive e)
    (he : A.CancelEffect e B) : B.Inv N ∧ B.User := by
  obtain ⟨D, hreceivers, hsenders⟩ := he
  obtain ⟨h', hp', hu', halive'⟩ := hreceivers.inv h hp hu halive
  obtain ⟨h'', -, hu'', -⟩ := hsenders.inv h' hp' hu' halive'
  exact ⟨h'', hu''⟩

/-! ### The life of a task -/

theorem Proper.dropReady (hp : A.Proper) : (A.dropReady t).Proper :=
  ⟨hp.ready.erase t, hp.waiting, hp.one⟩

theorem dropReady_of_not_mem (ht : t ∉ A.ready) : A.dropReady t = A := by
  show { A with ready := A.ready.erase t } = A
  rw [List.erase_of_not_mem ht]

/-- The state of a task in a queue. -/
theorem Inv.state_of_mem (h : A.Inv N) (ht : t ∈ A.waiting e side) :
    (A.tasks t).state = .waiting ∨ (A.tasks t).state = .killed := by
  cases side with
  | receiver => exact Or.inl (h.receivers e t ht).state
  | sender =>
    rcases h.senders e t ht with hs | hs
    · exact Or.inl hs.state
    · exact Or.inr hs.2.state

/-- A task in a queue that is not dead waits for no reply. -/
theorem Inv.callee_of_mem (h : A.Inv N) (ht : t ∈ A.waiting e side)
    (hwaiting : (A.tasks t).state = .waiting) : (A.tasks t).calleeTask = none := by
  cases side with
  | receiver => exact (h.receivers e t ht).callee
  | sender =>
    rcases h.senders e t ht with hs | hs
    · exact hs.callee
    · rw [hs.2.state] at hwaiting
      exact absurd hwaiting (by decide)

/-- The caller of a task waits. -/
theorem Inv.caller_waits (h : A.Inv N) (hs : (A.tasks s).callerTask = some t) :
    (A.tasks t).Calls ∧ (A.tasks t).calleeTask = some s := by
  have hcall := h.caller _ _ hs
  exact ⟨(h.callee _ _ hcall.1 hcall.2).1, hcall.1⟩

/-- What `kill_task` does to the queues when the task waits in one of them. -/
theorem unlink_of_mem (h : A.Inv N) (ht : t ∈ A.waiting e side)
    (hwaiting : (A.tasks t).state = .waiting) (hipc : (A.tasks t).ipcState ≠ .calling) :
    A.unlink t = A.dequeue t e side := by
  unfold unlink withdraw
  cases side with
  | receiver =>
    have hr := h.receivers e t ht
    rw [hwaiting]
    dsimp only
    rw [hr.endpoint, hr.ipcState]
  | sender =>
    rcases h.senders e t ht with hs | hs
    · rcases hs.kind with hk | hk
      · rw [hwaiting]
        dsimp only
        rw [hs.endpoint, hk.1]
      · exact absurd hk.1 hipc
    · rw [hs.2.state] at hwaiting
      exact absurd hwaiting (by decide)

/-- What it does when the task waits for a reply. -/
theorem unlink_of_caller (h : A.Inv N) (hs : (A.tasks s).callerTask = some t) :
    A.unlink t = A.mapTask s fun task => { task with callerTask := none } := by
  obtain ⟨hcalls, hcallee⟩ := h.caller_waits hs
  unfold unlink withdraw
  rw [hcalls.state]
  dsimp only
  cases he : (A.tasks t).endpoint with
  | none => exact absurd he hcalls.endpoint
  | some e =>
    dsimp only
    rw [hcalls.ipcState, hcallee]

/-- A task that waits at no endpoint is in no queue and at no callee. -/
theorem Inv.bury_idle {i : Int} (h : A.Inv N) (hp : A.Proper) (hidle : t ≠ A.idle)
    (hw : (A.tasks t).state = .waiting) (hendpoint : (A.tasks t).endpoint = none) :
    ((A.unlink t).mapTask t fun task => { task with state := .killed, exitStatus := i }).Inv N ∧
      ((A.unlink t).mapTask t fun task =>
        { task with state := .killed, exitStatus := i }).Proper ∧
      (((A.unlink t).mapTask t fun task =>
        { task with state := .killed, exitStatus := i }).Queued t →
        (A.tasks t).state = .killed ∧ A.Queued t) := by
  -- It waits for no endpoint, so there is nothing to unlink it from.
  have hunlink : A.unlink t = A := by
    unfold unlink
    rw [hw]
    dsimp only
    rw [hendpoint]
  have hout : ∀ e side, t ∉ A.waiting e side := by
    intro e side ht
    have hsome : (A.tasks t).endpoint = some e := by
      cases side with
      | receiver => exact (h.receivers e t ht).endpoint
      | sender => exact (h.sends ht (by rw [hw]; decide)).endpoint
    rw [hendpoint] at hsome
    exact absurd hsome (by simp)
  have hready : t ∉ A.ready := by
    intro ht
    have hstate := ((h.ready t).mp ht).1
    rw [hw] at hstate
    exact absurd hstate (by decide)
  have hdie := h.die (f := fun task => { task with state := .killed, exitStatus := i }) hp hidle
    (fun e side ht => absurd ht (hout e side))
    (fun s hs => absurd hendpoint (h.caller_waits hs).1.endpoint) rfl rfl rfl rfl rfl
  rw [dropReady_of_not_mem hready] at hdie
  rw [hunlink]
  refine ⟨hdie, hp.mapTask, ?_⟩
  rintro ⟨e, side, ht⟩
  exact absurd ht (hout e side)

/-- The task that `kill_task` has buried waits in no queue but as a notice, and for nothing. -/
theorem Inv.bury {i : Int} (h : A.Inv N) (hdeaths : N.deaths) (hp : A.Proper) (hidle : t ≠ A.idle)
    (hfound : A.Found t) : (A.bury t i).Inv N ∧ (A.bury t i).Proper ∧
      ((A.bury t i).Queued t → (A.tasks t).state = .killed ∧ A.Queued t) := by
  unfold Desk.bury
  by_cases hw : (A.tasks t).state = .waiting
  · cases hendpoint : (A.tasks t).endpoint with
    | none => exact h.bury_idle hp hidle hw hendpoint
    | some e =>
    -- It waits in the queue of its endpoint, or its caller has it bound.
    rcases hfound hw e hendpoint with ⟨hipc, e, side, hmem⟩ | ⟨s, hs⟩
    · rw [unlink_of_mem h hmem hw hipc]
      have hout : ∀ e' s', t ∉ (A.dequeue t e side).waiting e' s' := by
        intro e' s' ht
        have ht' := (mem_dequeue hp).mp ht
        obtain ⟨rfl, rfl⟩ := hp.one _ _ _ _ t hmem ht'.1
        exact ht'.2 ⟨rfl, rfl, rfl⟩
      have hready : t ∉ (A.dequeue t e side).ready := h.not_ready_of_mem hmem
      have hI : (A.dequeue t e side).Inv N := h.dequeue hp
      have hdie := hI.die
        (f := fun task => { task with state := .killed, exitStatus := i }) hp.dequeue hidle
        (fun e' s' ht => absurd ht (hout e' s')) (fun s hs => by
          obtain ⟨-, hcallee⟩ := h.caller_waits hs
          rw [h.callee_of_mem hmem hw] at hcallee
          exact absurd hcallee (by simp)) rfl rfl rfl rfl rfl
      rw [dropReady_of_not_mem hready] at hdie
      refine ⟨hdie, hp.dequeue.mapTask, ?_⟩
      rintro ⟨e', s', ht⟩
      exact absurd ht (hout e' s')
    · rw [unlink_of_caller h hs]
      refine ⟨h.dieCalling hdeaths hs (fun _ => rfl) (fun _ => rfl) fun _ => rfl, hp.mapTask.mapTask, ?_⟩
      rintro ⟨e', s', ht⟩
      obtain ⟨-, hcallee⟩ := h.caller_waits hs
      have ht' : t ∈ A.waiting e' s' := ht
      rw [h.callee_of_mem ht' hw] at hcallee
      exact absurd hcallee (by simp)
  · have hdie := h.die (f := fun task => { task with state := .killed, exitStatus := i }) hp hidle
      (fun e' s' ht => (h.state_of_mem ht).resolve_left hw)
      (h.not_caller hw) rfl rfl rfl rfl rfl
    have hunlink : A.unlink t = A.dropReady t := by
      unfold unlink
      split
      · rfl
      · rename_i hstate
        exact absurd hstate hw
      · rename_i hne _
        exact (dropReady_of_not_mem fun ht => hne ((h.ready t).mp ht).1).symm
    rw [hunlink]
    refine ⟨hdie, hp.dropReady.mapTask, ?_⟩
    rintro ⟨e', s', ht⟩
    have ht' : t ∈ A.waiting e' s' := ht
    exact ⟨(h.state_of_mem ht').resolve_left hw, e', s', ht'⟩

/-- The first part of `kill_task` stores no state but that of the task, and no callee, endpoint
of notices or number. -/
theorem bury_tasks {i : Int} {u : TaskPtr} :
    ((A.bury t i).tasks u).state = (if u = t then .killed else (A.tasks u).state) ∧
      ((A.bury t i).tasks u).calleeTask = (A.tasks u).calleeTask ∧
      ((A.bury t i).tasks u).killNotify = (A.tasks u).killNotify ∧
      ((A.bury t i).tasks u).tid = (A.tasks u).tid := by
  have hsame : ((A.unlink t).tasks u).state = (A.tasks u).state ∧
      ((A.unlink t).tasks u).calleeTask = (A.tasks u).calleeTask ∧
      ((A.unlink t).tasks u).killNotify = (A.tasks u).killNotify ∧
      ((A.unlink t).tasks u).tid = (A.tasks u).tid := by
    unfold unlink withdraw
    split
    · exact ⟨rfl, rfl, rfl, rfl⟩
    · split
      · split
        · exact ⟨rfl, rfl, rfl, rfl⟩
        · exact ⟨rfl, rfl, rfl, rfl⟩
        · split
          · rw [mapTask_tasks]
            split
            · rename_i heq
              rw [heq]
              exact ⟨rfl, rfl, rfl, rfl⟩
            · exact ⟨rfl, rfl, rfl, rfl⟩
          · exact ⟨rfl, rfl, rfl, rfl⟩
      · exact ⟨rfl, rfl, rfl, rfl⟩
    · exact ⟨rfl, rfl, rfl, rfl⟩
  unfold Desk.bury
  rw [mapTask_tasks]
  by_cases hut : u = t
  · rw [if_pos hut, if_pos hut]
    rw [hut] at hsame ⊢
    exact ⟨rfl, hsame.2⟩
  · rw [if_neg hut, if_neg hut]
    exact hsame

/-- It takes tasks out of queues only. -/
theorem bury_mem {i : Int} (hp : A.Proper) (ht : r ∈ (A.bury t i).waiting e side) :
    r ∈ A.waiting e side := by
  have hsub : r ∈ (A.unlink t).waiting e side := ht
  unfold unlink withdraw at hsub
  split at hsub
  · exact hsub
  · split at hsub
    · split at hsub
      · exact ((mem_dequeue hp).mp hsub).1
      · exact ((mem_dequeue hp).mp hsub).1
      · split at hsub
        · exact hsub
        · exact hsub
    · exact hsub
  · exact hsub

/-- It moves neither the current nor the idle task. -/
theorem bury_current {i : Int} : (A.bury t i).current = A.current ∧ (A.bury t i).idle = A.idle := by
  unfold Desk.bury unlink withdraw
  repeat' split
  all_goals exact ⟨rfl, rfl⟩

theorem BuriedEffect.inv (h : A.Inv N) (hp : A.Proper) (hu : t ≠ A.current → A.User)
    (hdead : (A.tasks t).state = .killed) (hidle : t ≠ A.idle) (hcur : A.current ≠ A.idle)
    (hself : ¬ A.Queued A.current) (hcallee : (A.tasks A.current).calleeTask = none)
    (hq : ∀ e, (A.tasks t).killNotify = some e → A.waiting e .receiver = [] → ¬ A.Queued t)
    (he : A.BuriedEffect N.notices t answer B) : B.Inv N ∧ B.Answered answer := by
  cases he with
  | other _ hne => exact ⟨h, hu hne⟩
  | self _ heq =>
    refine ⟨h.resched hcur (fun e side ht => absurd ⟨e, side, ht⟩ hself) hcallee ?_, Or.inl rfl⟩
    intro hpaused
    rw [← heq] at hpaused
    unfold Paused at hpaused
    rw [hdead] at hpaused
    exact absurd hpaused (by decide)
  | @told e r _ first =>
    have hreceives := h.receivers e r first.mem
    have hwake := h.wakeReceiver (f := Task.received) hp first.mem rfl hreceives.callee
      hreceives.caller hreceives.context (Or.inl rfl) rfl
    have hne : A.current ≠ r := by
      intro heq
      exact hself ⟨e, .receiver, heq ▸ first.mem⟩
    refine ⟨hwake.resched hcur (fun e' side ht => ?_) ?_ (fun _ => trivial), Or.inl rfl⟩
    · exact absurd ⟨e', side, ((mem_dequeue hp).mp ht).1⟩ hself
    · show ((((A.dequeue r e .receiver).mapTask r Task.received).pushReady r).tasks
        A.current).calleeTask = none
      rw [pushReady_tasks, mapTask_tasks, if_neg hne]
      exact hcallee
  | @queued e hnotify empty allowed =>
    have hnotice := h.notice (f := fun task =>
      { task with ipcState := .sending, eventType := .kill, endpoint := some e }) allowed
      (hq e hnotify empty) hidle hdead empty ⟨hdead, rfl, rfl⟩ rfl rfl
    refine ⟨hnotice.resched hcur (fun e' side ht => ?_) ?_ (fun _ => trivial), Or.inl rfl⟩
    · rcases mem_enqueue.mp ht with ht | ⟨-, -, heq⟩
      · exact absurd ⟨e', side, ht⟩ hself
      · have heq' : A.current = t := heq
        rw [enqueue_tasks, enqueue_current, mapTask_tasks, mapTask_current, if_pos heq']
        exact hdead
    · rw [enqueue_tasks, enqueue_current, mapTask_tasks, mapTask_current]
      split
      · rename_i heq
        rw [heq] at hcallee
        exact hcallee
      · exact hcallee

theorem SuspendEffect.inv (h : A.Inv N) (hp : A.Proper) (hu : A.User) (hidle : t ≠ A.idle)
    (hwaiting : (A.tasks t).state ≠ .waiting) (he : A.SuspendEffect t answer B) :
    B.Inv N ∧ B.Answered answer := by
  have hself := hu.notQueued
  unfold Queued at hself
  cases he with
  | self _ heq =>
    subst heq
    have hstore := h.store (f := fun task => { task with state := .suspended }) hu hu.callee rfl
      (show TaskState.suspended ≠ .ready by decide)
    refine ⟨hstore.resched hu.notIdle (fun e side ht => absurd ⟨e, side, ht⟩ hself) ?_
      (fun _ => trivial), Or.inl rfl⟩
    rw [mapTask_tasks, mapTask_current, if_pos rfl]
    exact hu.callee
  | plain hstate =>
    have hrunning := hstate.resolve_right hwaiting
    have hq : ¬ A.Queued t := by
      rintro ⟨e, side, ht⟩
      have hmem := h.state_of_mem ht
      rw [hrunning.1] at hmem
      exact absurd hmem (by decide)
    have hready : t ∉ A.ready := by
      intro ht
      have hs := ((h.ready t).mp ht).1
      rw [hrunning.1] at hs
      exact absurd hs (by decide)
    refine ⟨h.restate hready hidle hq hwaiting ?_ (fun _ => Or.inr (Or.inr hrunning.1))
      (show TaskState.suspended ≠ .ready by decide) id rfl rfl, hu.mapTask hrunning.2⟩
    rw [hrunning.1]
    decide
  | ready hstate =>
    have ht : t ∈ A.ready := (h.ready t).mpr ⟨hstate, hidle⟩
    have hne : t ≠ A.current := by
      intro heq
      exact hu.notReady (heq ▸ hstate)
    exact ⟨h.suspendReady hp ht rfl id rfl rfl, hu.dropReady.mapTask hne⟩
  | skip _ => exact ⟨h, hu⟩

theorem ResumeEffect.inv (h : A.Inv N) (hu : A.User) (hidle : t ≠ A.idle) (hne : t ≠ A.current)
    (he : A.ResumeEffect t answer B) : B.Inv N ∧ B.Answered answer := by
  cases he with
  | wake hstate => exact ⟨h.resume hne hidle hstate rfl id rfl rfl, hu.wake hne⟩
  | skip _ => exact ⟨h, hu⟩

theorem SwitchEffect.inv (h : A.Inv N) (hp : A.Proper) (hu : A.User) (hidle : t ≠ A.idle)
    (he : A.SwitchEffect t answer B) : B.Inv N ∧ B.Answered answer := by
  cases he with
  | switch hstate =>
    have ht : t ∈ A.ready := (h.ready t).mpr ⟨hstate, hidle⟩
    exact ⟨h.handOver hp hu ht, SwitchedIn.handOver h hu ht⟩
  | refuse _ => exact ⟨h, hu⟩

theorem NotifyEffect.inv (h : A.Inv N) (hu : A.User) (he : A.NotifyEffect t e answer B) :
    B.Inv N ∧ B.Answered answer := by
  cases he with
  | set _ =>
    refine ⟨h.keep rfl rfl rfl rfl rfl rfl rfl rfl, ?_⟩
    by_cases hne : t = A.current
    · subst hne
      exact hu.store hu.callee hu.notReady hu.alive
    · exact hu.mapTask hne
  | skip _ => exact ⟨h, hu⟩

/-! ### The step -/

/-- A task that is told of while nobody receives is not told of a second time. -/
theorem bury_not_queued {i : Int}
    (hqueued : (A.bury t i).Queued t → (A.tasks t).state = .killed ∧ A.Queued t)
    (hagain : (A.tasks t).state = .killed → ∀ e, (A.tasks t).killNotify = some e →
      A.waiting e .receiver = [] → ¬ A.Queued t)
    (hnotify : (A.tasks t).killNotify = some e) (hempty : (A.bury t i).waiting e .receiver = []) :
    ¬ (A.bury t i).Queued t := by
  intro hq
  obtain ⟨hkilled, hqueued'⟩ := hqueued hq
  have hunlink : A.unlink t = A := by
    unfold unlink
    rw [hkilled]
  have hwaiting : (A.unlink t).waiting e .receiver = [] := hempty
  rw [hunlink] at hwaiting
  exact hagain hkilled e hnotify hwaiting hqueued'

/-- The kill of a task. -/
theorem kill_inv {i : Int} (h : A.Inv N) (hdeaths : N.deaths) (hp : A.Proper) (hu : A.User) (hidle : t ≠ A.idle)
    (ho : A.Orderly (.kill t i)) (he : A.Effect N.notices (.kill t i) answer B) :
    B.Inv N ∧ B.Answered answer := by
  obtain ⟨hfound, he⟩ := he
  obtain ⟨hB, hpB, hqB⟩ := h.bury (i := i) hdeaths hp hidle hfound
  have hcur : (A.bury t i).current = A.current := bury_current.1
  have hidleB : (A.bury t i).idle = A.idle := bury_current.2
  have hself : ¬ (A.bury t i).Queued (A.bury t i).current := by
    rw [hcur]
    rintro ⟨e, side, ht⟩
    exact hu.notQueued ⟨e, side, bury_mem hp ht⟩
  have hcurrent := bury_tasks (A := A) (t := t) (i := i) (u := A.current)
  refine he.inv hB hpB ?_ ?_ (hidleB ▸ hidle) ?_ hself ?_ ?_
  · intro hne
    rw [hcur] at hne
    rw [if_neg (Ne.symm hne)] at hcurrent
    refine ⟨?_, ?_, ?_, ?_, hself⟩
    · rw [hcur, hidleB]
      exact hu.notIdle
    · rw [hcur, hcurrent.1]
      exact hu.notReady
    · rw [hcur, hcurrent.1]
      exact hu.alive
    · rw [hcur, hcurrent.2.1]
      exact hu.callee
  · rw [bury_tasks.1, if_pos rfl]
  · rw [hcur, hidleB]
    exact hu.notIdle
  · rw [hcur, hcurrent.2.1]
    exact hu.callee
  · intro e hnotify
    rw [bury_tasks.2.2.1] at hnotify
    exact bury_not_queued hqB ho.2 hnotify

/-- A receive, behind the reply that may come before it. -/
theorem receive_inv {b : Bool} {msg : Nat} (h : A.Inv N) (hp : A.Proper) (hu : A.User)
    (he : (A.stores (Task.longMsg msg)).abandon.ReceiveEffect b e answer B) :
    B.Inv N ∧ B.Answered answer := by
  have hS : (A.stores (Task.longMsg msg)).Inv N := h.store hu hu.callee rfl hu.notReady
  have huS : (A.stores (Task.longMsg msg)).User := hu.store hu.callee hu.notReady hu.alive
  obtain ⟨h', hp', hu', hnone, hmsg⟩ := hS.abandon hp.mapTask huS
  refine he.inv h' hp' hu' ?_ ?_
  · rw [abandon_current]
    exact hnone
  · rw [abandon_current, hmsg]
    show ((A.mapTask A.current (Task.longMsg msg)).tasks A.current).ipcMsgState = .longSize
    rw [mapTask_tasks, if_pos rfl]
    rfl

/-- The operations keep the joint discipline. -/
theorem Effect.inv {op : Op} (h : A.Inv N) (hp : A.Proper) (hu : A.User) (ho : A.Orderly op)
    (htarget : op.target ≠ some A.idle) (hkill : ∀ t i, op = .kill t i → N.deaths)
    (he : A.Effect N.notices op answer B) :
    B.Inv N ∧ B.Answered answer := by
  have hshort : ∀ args, (A.stores (Task.shortMsg args)).Inv N :=
    fun args => h.store hu hu.callee rfl hu.notReady
  have hlong : ∀ msg, (A.stores (Task.longMsg msg)).Inv N ∧ (A.stores (Task.longMsg msg)).User :=
    fun msg => ⟨h.store hu hu.callee rfl hu.notReady, hu.store hu.callee hu.notReady hu.alive⟩
  cases op with
  | sendShort b e args =>
    exact SendEffect.inv (hshort args) hp.mapTask (hu.store hu.callee hu.notReady hu.alive) he
  | sendLong b e msg => exact SendEffect.inv (hlong msg).1 hp.mapTask (hlong msg).2 he
  | receive b e msg => exact receive_inv h hp hu he
  | call e msg =>
    have hS : (A.stores (Task.callMsg e msg)).Inv N :=
      h.store hu hu.callee rfl (show TaskState.waiting ≠ .ready by decide)
    have huS : (A.stores (Task.callMsg e msg)).User :=
      hu.store hu.callee (show TaskState.waiting ≠ .ready by decide)
        (show TaskState.waiting ≠ .killed by decide)
    have hself : (A.stores (Task.callMsg e msg)).tasks (A.stores (Task.callMsg e msg)).current
        = Task.callMsg e msg (A.tasks A.current) := upd_same _ _ _
    exact CallEffect.inv hS hp.mapTask huS (hself ▸ rfl) (hself ▸ rfl) (hself ▸ rfl)
      (hself ▸ rfl) (hself ▸ rfl) he
  | reply e msg =>
    obtain ⟨h', -, hanswer⟩ := ReplyEffect.inv h hp hu he
    exact ⟨h', hanswer⟩
  | replyAndReceive e msg =>
    rcases he with ⟨hreply, rfl⟩ | ⟨D, hreply, hreceive⟩
    · obtain ⟨h', -, hu'⟩ := ReplyEffect.inv h hp hu hreply
      exact ⟨h', hu'⟩
    · obtain ⟨h', hp', hu'⟩ := ReplyEffect.inv h hp hu hreply
      exact receive_inv h' hp' hu' hreceive
  | cancel e =>
    obtain ⟨rfl, hcancel⟩ := he
    exact hcancel.inv h hp hu ho
  | yield =>
    obtain ⟨rfl, rfl⟩ := he
    have hself := hu.notQueued
    unfold Queued at hself
    have hready := h.ready_current (f := fun task => { task with state := .ready }) hu hu.callee
      rfl rfl
    refine ⟨hready.resched hu.notIdle (fun e side ht => absurd ⟨e, side, ht⟩ hself) ?_
      (fun _ => trivial), Or.inl rfl⟩
    have hcur : (A.wake A.current fun task => { task with state := .ready }).current
        = A.current := rfl
    rw [hcur, wake_tasks, if_pos rfl]
    exact hu.callee
  | switchTo t => exact SwitchEffect.inv h hp hu (fun heq => htarget (heq ▸ rfl)) he
  | suspend t => exact SuspendEffect.inv h hp hu (fun heq => htarget (heq ▸ rfl)) ho he
  | resume t => exact ResumeEffect.inv h hu (fun heq => htarget (heq ▸ rfl)) ho he
  | kill t i => exact kill_inv h (hkill t i rfl) hp hu (fun heq => htarget (heq ▸ rfl)) ho he
  | setKillNotify t e => exact NotifyEffect.inv h hu he

/-- A task that was switched in, and is not the idle task, may go on in user mode. -/
theorem User.of_running (h : A.Inv N) (hidle : A.current ≠ A.idle)
    (hrunning : (A.tasks A.current).state = .running) : A.User := by
  refine ⟨hidle, ?_, ?_, ?_, ?_⟩
  · rw [hrunning]
    decide
  · rw [hrunning]
    decide
  · exact h.callee_none (h.not_caller (by rw [hrunning]; decide)) (by rw [hrunning]; decide)
  · rintro ⟨e, side, ht⟩
    have hstate := h.state_of_mem ht
    rw [hrunning] at hstate
    exact absurd hstate (by decide)

/-- The task that goes on keeps the joint discipline. -/
theorem GoOnEffect.inv (h : A.Inv N) (hp : A.Proper) (hs : A.SwitchedIn)
    (he : A.GoOnEffect answer B) : B.Inv N ∧ B.Answered answer := by
  have hcontext : (A.tasks A.current).context ≠ .idle → A.current ≠ A.idle := by
    intro hne heq
    rw [heq] at hne
    exact hne h.idle.1
  cases he with
  | dispatch idle first =>
    have ht := List.mem_of_head? first
    exact ⟨h.dispatch hp ht idle, SwitchedIn.dispatch h ht idle⟩
  | send context =>
    have hidle := hcontext (by rcases context with hc | hc | hc <;> simp [hc])
    exact ⟨h, User.of_running h hidle (hs.resolve_left hidle).1⟩
  | plain context =>
    have hidle := hcontext context.1
    exact ⟨h, User.of_running h hidle (hs.resolve_left hidle).1⟩
  | buried context =>
    have hidle := hcontext (by simp [context])
    have hu := User.of_running h hidle (hs.resolve_left hidle).1
    have hself := hu.notQueued
    unfold Queued at hself
    exact ⟨h.resched hidle (fun e side ht => absurd ⟨e, side, ht⟩ hself) hu.callee
      fun _ => trivial, Or.inl rfl⟩

end Parts

end Desk

end Caprese
