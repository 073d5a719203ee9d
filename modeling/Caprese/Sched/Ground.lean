import Caprese.Sched.Preserve

/-!
# `Caprese.Sched.Ground`: what the memory of tasks and endpoints bears

Further properties of a desk that the operations keep. The idle task stays the same one. A task that
is not in use has no caller, the current task is in use, and tasks wait only at endpoints of a given
set (`Desk.Grounded`), as long as the operations name endpoints of this set.
-/

set_option autoImplicit false

namespace Caprese

open Lib Prog

/-- In the build with assertions tasks may die, and no notice waits. -/
abbrev debugAllows : Desk.Allows := ⟨True, False⟩

/-- The endpoint that an operation is about. -/
def Op.endpoint : Op → Option EndpointPtr
  | .sendShort _ e _ | .sendLong _ e _ | .receive _ e _ | .call e _ | .reply e _
  | .replyAndReceive e _ | .cancel e | .setKillNotify _ e => some e
  | _ => none

/-! ### The idle task stays -/

namespace Desk

variable {A B : Desk} {answer : Option Bool} {t : TaskPtr} {e : EndpointPtr} {n : Prop}

theorem SendEffect.idle {loose : Prop} {b : Bool} (h : A.SendEffect loose b e answer B) :
    B.idle = A.idle := by
  cases h with
  | @meet r sent _ _ => cases sent <;> rfl
  | _ => rfl

theorem ReceiveEffect.idle {b : Bool} (h : A.ReceiveEffect b e answer B) : B.idle = A.idle := by
  cases h <;> rfl

theorem ReplyEffect.idle {msg : Nat} (h : A.ReplyEffect msg answer B) : B.idle = A.idle := by
  cases h <;> rfl

theorem abandon_idle : A.abandon.idle = A.idle := by
  unfold abandon
  split <;> rfl

theorem CancelEffect.idle (h : A.CancelEffect e B) : B.idle = A.idle := by
  have hloop : ∀ {side : QueueSide} {D D' : Desk}, D.CancelLoop e side D' → D'.idle = D.idle := by
    rintro side D D' ⟨hturns, -⟩
    induction hturns with
    | refl => rfl
    | tail _ hturn ih =>
      obtain ⟨t, -, rfl⟩ := hturn
      exact ih
  obtain ⟨D, hreceivers, hsenders⟩ := h
  exact (hloop hsenders).trans (hloop hreceivers)

theorem BuriedEffect.idle (h : A.BuriedEffect n t answer B) : B.idle = A.idle := by
  cases h <;> rfl

/-- No operation puts another task in the place of the idle task. -/
theorem Effect.idle {op : Op} (h : A.Effect n op answer B) : B.idle = A.idle := by
  cases op with
  | sendShort b e args => exact SendEffect.idle (A := A.stores (Task.shortMsg args)) h
  | sendLong b e msg => exact SendEffect.idle (A := A.stores (Task.longMsg msg)) h
  | receive b e msg =>
    exact (ReceiveEffect.idle h).trans (abandon_idle (A := A.stores (Task.longMsg msg)))
  | call e msg =>
    have h : (A.stores (Task.callMsg e msg)).CallEffect e answer B := h
    cases h <;> rfl
  | reply e msg => exact ReplyEffect.idle h
  | replyAndReceive e msg =>
    rcases h with ⟨h, -⟩ | ⟨D, hreply, hreceive⟩
    · exact h.idle
    · have habandon := abandon_idle (A := D.stores (Task.longMsg msg))
      exact (hreceive.idle.trans habandon).trans hreply.idle
  | cancel e => exact h.2.idle
  | yield =>
    obtain ⟨-, rfl⟩ := h
    rfl
  | switchTo t => cases h <;> rfl
  | suspend t => cases h <;> rfl
  | resume t => cases h <;> rfl
  | kill t i => exact h.2.idle.trans bury_current.2
  | setKillNotify t e => cases h <;> rfl

theorem GoOnEffect.idle_eq (h : A.GoOnEffect answer B) : B.idle = A.idle := by
  cases h <;> rfl

end Desk

/-! ### Grounded desks -/

namespace Desk

/-- Tasks that are not in use have no caller, the current and the idle task are in use, and whoever
waits does so at an endpoint in `G`. -/
structure Grounded (G : EndpointPtr → Prop) (A : Desk) : Prop where
  spare : ∀ t, (A.tasks t).state = .unused → (A.tasks t).callerTask = none
  inUse : (A.tasks A.current).state ≠ .unused
  idle : (A.tasks A.idle).state ≠ .unused
  queues : ∀ e side, A.waiting e side ≠ [] → G e

variable {G : EndpointPtr → Prop} {A B : Desk} {t r : TaskPtr} {e : EndpointPtr}
  {side : QueueSide} {f g : Task → Task} {answer : Option Bool}

namespace Grounded

variable (h : A.Grounded G)
include h

theorem deliver (dst src : TaskPtr) : (A.deliver dst src).Grounded G :=
  ⟨h.spare, h.inUse, h.idle, h.queues⟩

theorem passed (sent : Bool) (dst src : TaskPtr) : (A.passed sent dst src).Grounded G := by
  unfold Desk.passed
  split
  · exact h.deliver dst src
  · exact h

theorem pushReady (t : TaskPtr) : (A.pushReady t).Grounded G := ⟨h.spare, h.inUse, h.idle, h.queues⟩

theorem dropReady (t : TaskPtr) : (A.dropReady t).Grounded G := ⟨h.spare, h.inUse, h.idle, h.queues⟩

/-- A store that leaves the task in use. -/
theorem mapUsed (hf : (f (A.tasks t)).state ≠ .unused) : (A.mapTask t f).Grounded G where
  spare u hu := by
    rw [mapTask_tasks] at hu ⊢
    split at hu <;> rename_i hut
    · exact absurd hu hf
    · rw [if_neg hut]
      exact h.spare u hu
  inUse := by
    rw [mapTask_current, mapTask_tasks]
    split
    · exact hf
    · exact h.inUse
  idle := by
    rw [mapTask_idle, mapTask_tasks]
    split
    · exact hf
    · exact h.idle
  queues := h.queues

/-- A store to other fields, or one that takes the caller away. -/
theorem mapTask (hstate : (f (A.tasks t)).state = (A.tasks t).state)
    (hcaller : (f (A.tasks t)).callerTask = (A.tasks t).callerTask ∨
      (f (A.tasks t)).callerTask = none) : (A.mapTask t f).Grounded G where
  spare u hu := by
    rw [mapTask_tasks] at hu ⊢
    split at hu <;> rename_i hut
    · rw [if_pos hut]
      rcases hcaller with hcaller | hcaller
      · rw [hcaller]
        exact h.spare t (hstate ▸ hu)
      · exact hcaller
    · rw [if_neg hut]
      exact h.spare u hu
  inUse := by
    rw [mapTask_current, mapTask_tasks]
    split
    · rename_i hcur
      rw [hstate, ← hcur]
      exact h.inUse
    · exact h.inUse
  idle := by
    rw [mapTask_idle, mapTask_tasks]
    split
    · rename_i hidle
      rw [hstate, ← hidle]
      exact h.idle
    · exact h.idle
  queues := h.queues

theorem stores (hf : (f (A.tasks A.current)).state ≠ .unused) : (A.stores f).Grounded G :=
  h.mapUsed hf

theorem dequeue : (A.dequeue t e side).Grounded G where
  spare := h.spare
  inUse := h.inUse
  idle := h.idle
  queues e' side' hne := by
    refine h.queues e' side' fun hempty => hne ?_
    unfold Desk.dequeue
    rw [setWaiting_waiting]
    split
    · rename_i heq
      rw [← heq.1, ← heq.2, hempty]
      rfl
    · exact hempty

theorem enqueue (he : G e) : (A.enqueue t e side).Grounded G where
  spare := h.spare
  inUse := h.inUse
  idle := h.idle
  queues e' side' hne := by
    unfold Desk.enqueue at hne
    rw [setWaiting_waiting] at hne
    split at hne
    · rename_i heq
      rw [heq.1]
      exact he
    · exact h.queues e' side' hne

theorem run (ht : (A.tasks t).state ≠ .unused) : (A.run t).Grounded G :=
  ⟨h.spare, ht, h.idle, h.queues⟩

theorem leave (resume : Resume) : (A.leave t resume).Grounded G := h.mapTask rfl (Or.inl rfl)

theorem resched (resume : Resume) : (A.resched resume).Grounded G := (h.run h.idle).leave resume

theorem wake (hf : (f (A.tasks t)).state ≠ .unused) : (A.wake t f).Grounded G :=
  (h.mapUsed hf).pushReady t

theorem handOver : (A.handOver t).Grounded G := by
  have hrun : ((A.mapTask t fun task => { task with state := .running }).run t).Grounded G := by
    refine (h.mapUsed TaskState.noConfusion).run ?_
    rw [mapTask_tasks, if_pos rfl]
    exact TaskState.noConfusion
  exact (hrun.mapUsed TaskState.noConfusion).pushReady _

end Grounded

/-! ### The operations keep a desk grounded -/

section Effects

variable {N : Allows}

/-- In the build with assertions nobody who stands in a queue is dead. -/
theorem Inv.queued_waits (hI : A.Inv debugAllows) (hq : A.Queued t) :
    (A.tasks t).state = .waiting := by
  obtain ⟨e, side, hmem⟩ := hq
  cases side with
  | receiver => exact (hI.receivers e t hmem).state
  | sender =>
    rcases hI.senders e t hmem with hsends | ⟨hfalse, -⟩
    · exact hsends.state
    · exact hfalse.elim

variable (h : A.Grounded G)
include h

theorem SendEffect.grounded {loose : Prop} {b : Bool} (he : G e)
    (heffect : A.SendEffect loose b e answer B) : B.Grounded G := by
  cases heffect with
  | meet _ _ => exact ((h.passed _ _ _).dequeue.mapUsed TaskState.noConfusion).handOver
  | fail _ => exact h
  | block _ _ => exact ((h.stores TaskState.noConfusion).enqueue he).resched _
  | refuse _ _ => exact h

theorem abandon_grounded : A.abandon.Grounded G := by
  unfold abandon
  split
  · exact h
  · exact ((h.mapUsed TaskState.noConfusion).mapTask rfl (Or.inr rfl)).pushReady _

/-- The task that takes a call is the current one. -/
theorem ReceiveEffect.grounded {b : Bool} (he : G e) (heffect : A.ReceiveEffect b e answer B) :
    B.Grounded G := by
  cases heffect with
  | fail _ => exact h.dequeue
  | @bind s _ _ _ =>
    have hsender : (((A.deliver A.current s).dequeue s e .sender).mapTask s fun task =>
        { task with calleeTask := some A.current }).Grounded G :=
      (h.deliver _ _).dequeue.mapTask rfl (Or.inl rfl)
    exact hsender.mapUsed (t := A.current) hsender.inUse
  | take _ _ _ => exact ((h.deliver _ _).dequeue.mapUsed TaskState.noConfusion).handOver
  | notice _ _ told =>
    rcases told with rfl | rfl
    · exact h.dequeue.mapTask rfl (Or.inl rfl)
    · exact h.dequeue.mapTask rfl (Or.inl rfl)
  | block _ _ => exact ((h.stores TaskState.noConfusion).enqueue he).resched _
  | refuse _ _ => exact h

theorem ReplyEffect.grounded {msg : Nat} (heffect : A.ReplyEffect msg answer B) : B.Grounded G := by
  have hstores : (A.stores (Task.longMsg msg)).Grounded G := h.mapTask rfl (Or.inl rfl)
  cases heffect with
  | none _ => exact h
  | fail _ => exact hstores
  | done _ =>
    refine Grounded.pushReady ?_ _
    exact ((hstores.deliver _ _).mapUsed TaskState.noConfusion).mapTask rfl (Or.inr rfl)

theorem CallEffect.grounded (he : G e) (heffect : A.CallEffect e answer B) : B.Grounded G := by
  cases heffect with
  | fail => exact h
  | @bind r _ =>
    have hreceiver : (((A.deliver r A.current).dequeue r e .receiver).mapTask r fun task =>
        { task.received with callerTask := some A.current }).Grounded G :=
      (h.deliver _ _).dequeue.mapUsed TaskState.noConfusion
    exact ((hreceiver.mapTask rfl (Or.inl rfl)).pushReady _).resched _
  | block _ => exact (h.enqueue he).resched _

theorem CancelEffect.grounded (heffect : A.CancelEffect e B) : B.Grounded G := by
  have hloop : ∀ {side : QueueSide} {D D' : Desk}, D.CancelLoop e side D' → D.Grounded G →
      D'.Grounded G := by
    rintro side D D' ⟨hturns, -⟩ hD
    induction hturns with
    | refl => exact hD
    | tail _ hturn ih =>
      obtain ⟨t, -, rfl⟩ := hturn
      exact ih.dequeue.wake (by cases side <;> exact TaskState.noConfusion)
  obtain ⟨D, hreceivers, hsenders⟩ := heffect
  exact hloop hsenders (hloop hreceivers h)

/-! The life of a task. -/

theorem bury_grounded (i : Int) : (A.bury t i).Grounded G := by
  refine Grounded.mapUsed ?_ TaskState.noConfusion
  unfold unlink withdraw
  split
  · exact h.dropReady t
  · split
    · split
      · exact h.dequeue
      · exact h.dequeue
      · split
        · exact h.mapTask rfl (Or.inr rfl)
        · exact h
    · exact h
  · exact h

theorem BuriedEffect.grounded (heffect : A.BuriedEffect debugAllows.notices t answer B) :
    B.Grounded G := by
  cases heffect with
  | other _ _ => exact h
  | self _ _ => exact h.resched _
  | told _ _ => exact (h.dequeue.wake TaskState.noConfusion).resched _
  | queued _ _ allowed => exact allowed.elim

/-- An operation on an endpoint in `G`. -/
theorem Effect.grounded {op : Op} (hG : ∀ e, op.endpoint = some e → G e)
    (heffect : A.Effect debugAllows.notices op answer B) : B.Grounded G := by
  cases op with
  | sendShort b e args =>
    exact SendEffect.grounded (A := A.stores (Task.shortMsg args)) (h.mapTask rfl (Or.inl rfl))
      (hG e rfl) heffect
  | sendLong b e msg =>
    exact SendEffect.grounded (A := A.stores (Task.longMsg msg)) (h.mapTask rfl (Or.inl rfl))
      (hG e rfl) heffect
  | receive b e msg =>
    have hstores : (A.stores (Task.longMsg msg)).Grounded G := h.mapTask rfl (Or.inl rfl)
    exact ReceiveEffect.grounded (abandon_grounded hstores) (hG e rfl) heffect
  | call e msg =>
    exact CallEffect.grounded (A := A.stores (Task.callMsg e msg))
      (h.stores TaskState.noConfusion) (hG e rfl) heffect
  | reply e msg => exact ReplyEffect.grounded h heffect
  | replyAndReceive e msg =>
    rcases heffect with ⟨hreply, -⟩ | ⟨D, hreply, hreceive⟩
    · exact hreply.grounded h
    · have hD : (D.stores (Task.longMsg msg)).Grounded G :=
        (hreply.grounded h).mapTask rfl (Or.inl rfl)
      exact hreceive.grounded (abandon_grounded hD) (hG e rfl)
  | cancel e => exact heffect.2.grounded h
  | yield =>
    obtain ⟨-, rfl⟩ := heffect
    exact (h.wake TaskState.noConfusion).resched _
  | switchTo t =>
    cases heffect with
    | switch _ => exact (h.dropReady t).handOver
    | refuse _ => exact h
  | suspend t =>
    cases heffect with
    | self _ _ => exact (h.mapUsed TaskState.noConfusion).resched _
    | plain _ => exact h.mapUsed TaskState.noConfusion
    | ready _ => exact (h.dropReady t).mapUsed TaskState.noConfusion
    | skip _ => exact h
  | resume t =>
    cases heffect with
    | wake _ => exact h.wake TaskState.noConfusion
    | skip _ => exact h
  | kill t i => exact heffect.2.grounded (bury_grounded h i)
  | setKillNotify t e =>
    cases heffect with
    | set _ => exact h.mapTask rfl (Or.inl rfl)
    | skip _ => exact h

/-- The task that is switched in goes on. -/
theorem GoOnEffect.grounded (hI : A.Inv N) (heffect : A.GoOnEffect answer B) : B.Grounded G := by
  cases heffect with
  | @dispatch t _ first =>
    have hused : (A.tasks t).state ≠ .unused := by
      rw [((hI.ready t).mp (List.mem_of_head? first)).1]
      decide
    exact ((h.dropReady t).run hused).mapUsed TaskState.noConfusion
  | send _ => exact h
  | plain _ => exact h
  | buried _ => exact h.resched _

end Effects

end Desk

end Caprese
