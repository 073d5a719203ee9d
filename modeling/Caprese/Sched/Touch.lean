import Caprese.Sched.Order

/-!
# `Caprese.Sched.Touch`: whom an operation touches

An operation of the current task stores to that task, and to the few others that it touches
(`Desk.Touches`): the one that it names, the one that it meets at its endpoint, and the caller that
it answers or gives up. All others stay as they are (`Desk.Effect.spares`).
-/

set_option autoImplicit false

namespace Caprese

open Lib Prog

namespace Desk

variable {A B : Desk} {t u : TaskPtr} {e : EndpointPtr} {f : Task → Task} {resume : Resume}
  {answer : Option Bool} {notices : Prop}

/-- The tasks that an operation stores to, apart from the current one. -/
def Touches (A : Desk) (t : TaskPtr) : Op → Prop
  | .sendShort _ e _ | .sendLong _ e _ | .call e _ => A.First e .receiver t
  | .receive _ e _ | .replyAndReceive e _ =>
    A.First e .sender t ∨ (A.tasks A.current).callerTask = some t
  | .reply _ _ => (A.tasks A.current).callerTask = some t
  | .cancel e => ∃ side, t ∈ A.waiting e side
  | .yield => False
  | .switchTo u | .suspend u | .resume u | .setKillNotify u _ => t = u
  -- A task that dies leaves its callee, and is reported at its endpoint for notices.
  | .kill u _ => t = u ∨ (A.tasks u).calleeTask = some t ∨
    ∃ e, (A.tasks u).killNotify = some e ∧ t ∈ A.waiting e .receiver

/-! ### Parts of operations -/

theorem stores_spares (h : t ≠ A.current) : (A.stores f).tasks t = A.tasks t :=
  A.mapTask_tasks_ne A.current f h

@[simp] theorem passed_tasks (sent : Bool) (dst src : TaskPtr) :
    (A.passed sent dst src).tasks t = A.tasks t := by
  cases sent <;> rfl

@[simp] theorem passed_current (sent : Bool) (dst src : TaskPtr) :
    (A.passed sent dst src).current = A.current := by
  cases sent <;> rfl

theorem handOver_spares (hcurrent : t ≠ A.current) (h : t ≠ u) :
    (A.handOver u).tasks t = A.tasks t := by
  simp [handOver, swap, hcurrent, h]

theorem wake_spares (h : t ≠ u) : (A.wake u f).tasks t = A.tasks t := by
  simp [wake, h]

variable (hcurrent : t ≠ A.current)
include hcurrent

theorem resched_spares : (A.resched resume).tasks t = A.tasks t := by
  simp [resched, leave, hcurrent]

theorem SendEffect.spares {loose : Prop} {b : Bool} (h : A.SendEffect loose b e answer B)
    (hfirst : ¬ A.First e .receiver t) : B.tasks t = A.tasks t := by
  cases h with
  | @meet r sent first _ =>
    have hr : t ≠ r := fun heq => hfirst (heq ▸ first)
    rw [handOver_spares (by simpa using hcurrent) hr]
    simp [hr]
  | fail _ => rfl
  | block _ _ =>
    rw [resched_spares (by exact hcurrent), enqueue_tasks]
    exact stores_spares hcurrent
  | refuse _ _ => rfl

/-- Giving up a caller stores to it. -/
theorem abandon_spares (hcaller : (A.tasks A.current).callerTask ≠ some t) :
    A.abandon.tasks t = A.tasks t := by
  unfold abandon
  split
  · rfl
  · rename_i c hc
    have hne : t ≠ c := by
      rintro rfl
      exact hcaller hc
    simp [hcurrent, hne]

omit hcurrent in
theorem abandon_waiting : A.abandon.waiting = A.waiting := by
  unfold abandon
  split <;> rfl

theorem ReceiveEffect.spares {b : Bool} (h : A.ReceiveEffect b e answer B)
    (hfirst : ¬ A.First e .sender t) : B.tasks t = A.tasks t := by
  cases h with
  | fail _ => rfl
  | @bind s first _ _ =>
    have hs : t ≠ s := fun heq => hfirst (heq ▸ first)
    simp [hcurrent, hs]
  | @take s first _ _ =>
    have hs : t ≠ s := fun heq => hfirst (heq ▸ first)
    rw [handOver_spares (by exact hcurrent) hs]
    simp [hs]
  | notice _ _ _ => exact stores_spares (by exact hcurrent)
  | block _ _ =>
    rw [resched_spares (by exact hcurrent), enqueue_tasks]
    exact stores_spares hcurrent
  | refuse _ _ => rfl

theorem ReplyEffect.spares {msg : Nat} (h : A.ReplyEffect msg answer B)
    (hcaller : (A.tasks A.current).callerTask ≠ some t) : B.tasks t = A.tasks t := by
  cases h with
  | none _ => rfl
  | fail _ => exact stores_spares hcurrent
  | @done c hc =>
    have hne : t ≠ c := by
      rintro rfl
      exact hcaller hc
    simp [stores, hcurrent, hne]

theorem CallEffect.spares (h : A.CallEffect e answer B) (hfirst : ¬ A.First e .receiver t) :
    B.tasks t = A.tasks t := by
  cases h with
  | fail => rfl
  | @bind r first =>
    have hr : t ≠ r := fun heq => hfirst (heq ▸ first)
    rw [resched_spares (by exact hcurrent)]
    simp [hcurrent, hr]
  | block _ => exact resched_spares (by exact hcurrent)

omit hcurrent in
/-- The loops of `ipc_cancel` store to the tasks that wait. -/
theorem CancelEffect.spares (h : A.CancelEffect e B) (hwaits : ∀ side, t ∉ A.waiting e side) :
    B.tasks t = A.tasks t := by
  have hloop : ∀ {side : QueueSide} {D D' : Desk}, D.CancelLoop e side D' →
      D.tasks t = A.tasks t ∧ (∀ side, t ∉ D.waiting e side) →
      D'.tasks t = A.tasks t ∧ ∀ side, t ∉ D'.waiting e side := by
    rintro side D D' ⟨hturns, -⟩ hD
    induction hturns with
    | refl => exact hD
    | tail _ hturn ih =>
      obtain ⟨u, hfirst, rfl⟩ := hturn
      have hu : t ≠ u := fun heq => ih.2 side (heq ▸ List.mem_of_mem_head? hfirst)
      refine ⟨(wake_spares hu).trans ih.1, fun side' hmem => ih.2 side' ?_⟩
      change t ∈ (Desk.dequeue _ u e side).waiting e side' at hmem
      unfold Desk.dequeue at hmem
      rw [setWaiting_waiting] at hmem
      split at hmem
      · rename_i heq
        exact heq.2 ▸ List.mem_of_mem_erase hmem
      · exact hmem
  obtain ⟨D, hreceivers, hsenders⟩ := h
  exact (hloop hsenders (hloop hreceivers ⟨rfl, hwaits⟩)).1

omit hcurrent in
/-- A task that dies stores to its callee. -/
theorem bury_spares {i : Int} (hu : t ≠ u) (hcallee : (A.tasks u).calleeTask ≠ some t) :
    (A.bury u i).tasks t = A.tasks t := by
  refine (mapTask_tasks_ne _ _ _ hu).trans ?_
  unfold unlink withdraw
  split
  · rfl
  · split
    · split
      · rfl
      · rfl
      · split
        · rename_i callee hcalls
          refine mapTask_tasks_ne _ _ _ ?_
          rintro rfl
          exact hcallee hcalls
        · rfl
    · rfl
  · rfl

/-- Nobody is told of the death of a task but the first that waits for notices. -/
theorem BuriedEffect.spares (hu : t ≠ u) (h : A.BuriedEffect notices u answer B)
    (htold : ∀ e, (A.tasks u).killNotify = some e → t ∉ A.waiting e .receiver) :
    B.tasks t = A.tasks t := by
  cases h with
  | other _ _ => rfl
  | self _ _ => exact resched_spares hcurrent
  | @told e r notify first =>
    have hr : t ≠ r := fun heq => htold e notify (heq ▸ List.mem_of_mem_head? first)
    rw [resched_spares (by exact hcurrent), wake_spares hr, dequeue_tasks]
  | queued _ _ _ =>
    rw [resched_spares (by exact hcurrent), enqueue_tasks, mapTask_tasks_ne _ _ _ hu]

/-! ### Operations -/

/-- An operation leaves the tasks that it does not touch as they are. -/
theorem Effect.spares {op : Op} (h : A.Effect notices op answer B) (htouch : ¬ A.Touches t op) :
    B.tasks t = A.tasks t := by
  -- The store to the current task comes first, and touches no queue.
  have hstored : ∀ f, (A.stores f).tasks t = A.tasks t := fun f => stores_spares hcurrent
  -- A caller that is given up is that of the current task.
  have habandoned : ∀ {D : Desk} {msg : Nat}, D.current = A.current →
      (D.tasks D.current).callerTask ≠ some t →
      (D.stores (Task.longMsg msg)).abandon.tasks t = D.tasks t := by
    intro D msg hD hcaller
    have hcurrent' : t ≠ D.current := by rwa [hD]
    refine (abandon_spares (by exact hcurrent') ?_).trans (stores_spares hcurrent')
    simpa [stores, Task.longMsg, Task.setIpcLongMsg] using hcaller
  cases op with
  | sendShort b e args => exact (SendEffect.spares (by exact hcurrent) h htouch).trans (hstored _)
  | sendLong b e msg => exact (SendEffect.spares (by exact hcurrent) h htouch).trans (hstored _)
  | receive b e msg =>
    obtain ⟨hfirst, hcaller⟩ := not_or.mp htouch
    refine (ReceiveEffect.spares ?_ h ?_).trans (habandoned rfl hcaller)
    · rw [abandon_current]
      exact hcurrent
    · unfold First
      rw [abandon_waiting]
      exact hfirst
  | call e msg => exact (CallEffect.spares (by exact hcurrent) h htouch).trans (hstored _)
  | reply e msg => exact ReplyEffect.spares hcurrent h htouch
  | replyAndReceive e msg =>
    obtain ⟨hfirst, hcaller⟩ := not_or.mp htouch
    rcases h with ⟨hreply, -⟩ | ⟨D, hreply, hreceive⟩
    · exact hreply.spares hcurrent hcaller
    · obtain ⟨hnone, hD⟩ := hreply.answered
      have hwaiting : D.waiting = A.waiting := by
        cases hreply <;> rfl
      refine (ReceiveEffect.spares ?_ hreceive ?_).trans
        ((habandoned hD (by simp [hnone])).trans (hreply.spares hcurrent hcaller))
      · rw [abandon_current]
        show t ≠ D.current
        rwa [hD]
      · unfold First
        rw [abandon_waiting]
        show ¬ (D.waiting e .sender).head? = some t
        rwa [hwaiting]
  | cancel e => exact h.2.spares fun side hmem => htouch ⟨side, hmem⟩
  | yield =>
    obtain ⟨-, rfl⟩ := h
    rw [resched_spares (by exact hcurrent), wake_spares hcurrent]
  | switchTo u =>
    cases h with
    | switch _ => exact handOver_spares (by exact hcurrent) htouch
    | refuse _ => rfl
  | suspend u =>
    cases h with
    | self _ _ => rw [resched_spares (by exact hcurrent), mapTask_tasks_ne _ _ _ htouch]
    | plain _ => exact mapTask_tasks_ne _ _ _ htouch
    | ready _ => exact mapTask_tasks_ne _ _ _ htouch
    | skip _ => rfl
  | resume u =>
    cases h with
    | wake _ => exact wake_spares htouch
    | skip _ => rfl
  | kill u i =>
    obtain ⟨hu, hpartner⟩ := not_or.mp htouch
    obtain ⟨hcallee, htold⟩ := not_or.mp hpartner
    refine (h.2.spares ?_ hu fun e hnotify hmem => htold ⟨e, ?_, ?_⟩).trans (bury_spares hu hcallee)
    · rw [bury_current.1]
      exact hcurrent
    · rw [← hnotify, bury_tasks.2.2.1]
    · exact (bury_fair i).2 e .receiver hmem
  | setKillNotify u e =>
    cases h with
    | set _ => exact mapTask_tasks_ne _ _ _ htouch
    | skip _ => rfl

omit hcurrent in
/-- With an answer, the task that called is still the current one. -/
theorem Effect.current {op : Op} {b : Bool} (h : A.Effect notices op (some b) B) :
    B.current = A.current := by
  have hsend : ∀ (f : Task → Task) {loose : Prop} {b' : Bool} {e : EndpointPtr},
      (A.stores f).SendEffect loose b' e (some b) B → B.current = A.current := by
    intro f loose b' e hsent
    cases hsent <;> rfl
  have hreceive : ∀ {D : Desk} {msg : Nat} {b' : Bool} {e : EndpointPtr},
      (D.stores (Task.longMsg msg)).abandon.ReceiveEffect b' e (some b) B →
      B.current = D.current := by
    intro D msg b' e hreceived
    have habandon : (D.stores (Task.longMsg msg)).abandon.current = D.current := abandon_current
    cases hreceived <;> exact habandon
  cases op with
  | sendShort b' e args => exact hsend (Task.shortMsg args) h
  | sendLong b' e msg => exact hsend (Task.longMsg msg) h
  | receive b' e msg => exact hreceive h
  | call e msg =>
    have hcall : (A.stores (Task.callMsg e msg)).CallEffect e (some b) B := h
    cases hcall
    rfl
  | reply e msg =>
    have hreply : A.ReplyEffect msg (some b) B := h
    cases hreply <;> rfl
  | replyAndReceive e msg =>
    rcases h with ⟨hreply, -⟩ | ⟨D, hreply, hreceived⟩
    · cases hreply
      rfl
    · exact (hreceive hreceived).trans hreply.answered.2
  | cancel e =>
    have hloop : ∀ {side : QueueSide} {D D' : Desk}, D.CancelLoop e side D' →
        D'.current = D.current := by
      rintro side D D' ⟨hturns, -⟩
      induction hturns with
      | refl => rfl
      | tail _ hturn ih =>
        obtain ⟨u, -, rfl⟩ := hturn
        exact ih
    obtain ⟨-, D, hreceivers, hsenders⟩ := h
    exact (hloop hsenders).trans (hloop hreceivers)
  | yield => exact absurd h.1 (by simp)
  | switchTo u =>
    cases h
    rfl
  | suspend u => cases h <;> rfl
  | resume u => cases h <;> rfl
  | kill u i =>
    have hburied : (A.bury u i).BuriedEffect notices u (some b) B := h.2
    cases hburied
    exact bury_current.1
  | setKillNotify u e => cases h <;> rfl

/-- Going on, the current task stores to itself, and the idle task to the one that it switches
to. -/
theorem GoOnEffect.spares (h : A.GoOnEffect answer B)
    (hdispatch : A.current = A.idle → A.ready.head? ≠ some t) : B.tasks t = A.tasks t := by
  cases h with
  | @dispatch u idle first =>
    have hu : t ≠ u := fun heq => hdispatch idle (heq ▸ first)
    exact mapTask_tasks_ne _ _ _ hu
  | send _ => rfl
  | plain _ => rfl
  | buried _ => exact resched_spares hcurrent

end Desk

end Caprese
