import Caprese.Sched.Frame

/-!
# `Caprese.Sched.Desk`: the tasks and their queues as lists

A `Desk` is what the scheduler and the message passing are about: the tasks, who is ready,
who waits at which endpoint, and who has the processor. The links of the queues, the free
slots and the user memory are gone. `Shows k A` says that the kernel state `k` stands for the
desk `A`: each queue is the linked list of its tasks, and all other tasks have null links.

The rules of the module take `Shows` through the primitives: a push, a removal, a store to a
task, a message, and the ways to give up the processor. The operations are run on desks
with them.
-/

set_option autoImplicit false

namespace Caprese

open Lib Prog

/-- A task without its links, its free slots and its counts. -/
def Task.view (task : Task) : Task :=
  { task.bare with
    prevReadyTask := none
    nextReadyTask := none
    prevWaitingTask := none
    nextWaitingTask := none }

/-- The tasks and their queues. -/
structure Desk where
  tasks : TaskPtr → Task
  ready : List TaskPtr
  waiting : EndpointPtr → QueueSide → List TaskPtr
  current : TaskPtr
  idle : TaskPtr
  deliveries : List (TaskPtr × TaskPtr)

namespace Desk

variable (A : Desk) (t : TaskPtr)

/-- Stores into the fields of a task. -/
def mapTask (f : Task → Task) : Desk := { A with tasks := upd A.tasks t (f (A.tasks t)) }

/-- The tasks that wait on one side of an endpoint are `l`. -/
def setWaiting (endpoint : EndpointPtr) (side : QueueSide) (l : List TaskPtr) : Desk :=
  { A with waiting := upd A.waiting endpoint (upd (A.waiting endpoint) side l) }

/-- The task joins a queue of an endpoint. -/
def enqueue (endpoint : EndpointPtr) (side : QueueSide) : Desk :=
  A.setWaiting endpoint side (A.waiting endpoint side ++ [t])

/-- The task leaves a queue of an endpoint. -/
def dequeue (endpoint : EndpointPtr) (side : QueueSide) : Desk :=
  A.setWaiting endpoint side ((A.waiting endpoint side).erase t)

/-- The task joins the ready queue. -/
def pushReady : Desk := { A with ready := A.ready ++ [t] }

/-- The task leaves the ready queue. -/
def dropReady : Desk := { A with ready := A.ready.erase t }

/-- The task gets the processor. -/
def run : Desk := { A with current := t }

/-- The task leaves the processor, to go on with `resume`. -/
def leave (resume : Resume) : Desk := A.mapTask t fun task => { task with context := resume }

/-- The current task gives the processor to the idle task. -/
def resched (resume : Resume) : Desk := (A.run A.idle).leave A.current resume

/-- A message was handed over. -/
def deliver (dst src : TaskPtr) : Desk := { A with deliveries := A.deliveries ++ [(dst, src)] }

/-- The task waits at an endpoint. -/
def Queued : Prop := ∃ endpoint side, t ∈ A.waiting endpoint side

/-! What a store to one part of a desk leaves of the others. -/

section Parts

variable (f : Task → Task) (endpoint : EndpointPtr) (side : QueueSide) (l : List TaskPtr)
  (u v : TaskPtr) (e : EndpointPtr) (s : QueueSide)

@[simp, grind =] theorem mapTask_tasks :
    (A.mapTask t f).tasks u = if u = t then f (A.tasks t) else A.tasks u := upd_apply _ _ _ _

@[simp, grind =] theorem mapTask_waiting : (A.mapTask t f).waiting e s = A.waiting e s := rfl

@[simp, grind =] theorem mapTask_ready : (A.mapTask t f).ready = A.ready := rfl

@[simp, grind =] theorem mapTask_current : (A.mapTask t f).current = A.current := rfl

@[simp, grind =] theorem mapTask_idle : (A.mapTask t f).idle = A.idle := rfl

@[simp, grind =] theorem setWaiting_tasks : (A.setWaiting endpoint side l).tasks u = A.tasks u := rfl

@[grind =] theorem setWaiting_waiting : (A.setWaiting endpoint side l).waiting e s
    = if e = endpoint ∧ s = side then l else A.waiting e s := by
  show upd A.waiting endpoint _ e s = _
  rw [upd_apply]
  by_cases he : e = endpoint
  · rw [if_pos he, upd_apply, he]
    by_cases hs : s = side <;> simp [hs]
  · simp [he]

@[simp, grind =] theorem setWaiting_ready : (A.setWaiting endpoint side l).ready = A.ready := rfl

@[simp, grind =] theorem setWaiting_current : (A.setWaiting endpoint side l).current = A.current := rfl

@[simp, grind =] theorem setWaiting_idle : (A.setWaiting endpoint side l).idle = A.idle := rfl

@[simp, grind =] theorem run_tasks : (A.run t).tasks u = A.tasks u := rfl

@[simp, grind =] theorem run_waiting : (A.run t).waiting e s = A.waiting e s := rfl

@[simp, grind =] theorem run_ready : (A.run t).ready = A.ready := rfl

@[simp, grind =] theorem run_current : (A.run t).current = t := rfl

@[simp, grind =] theorem run_idle : (A.run t).idle = A.idle := rfl

@[simp, grind =] theorem pushReady_tasks : (A.pushReady t).tasks u = A.tasks u := rfl

@[simp, grind =] theorem pushReady_waiting : (A.pushReady t).waiting e s = A.waiting e s := rfl

@[simp, grind =] theorem pushReady_ready : (A.pushReady t).ready = A.ready ++ [t] := rfl

@[simp, grind =] theorem pushReady_current : (A.pushReady t).current = A.current := rfl

@[simp, grind =] theorem pushReady_idle : (A.pushReady t).idle = A.idle := rfl

@[simp, grind =] theorem dropReady_tasks : (A.dropReady t).tasks u = A.tasks u := rfl

@[simp, grind =] theorem dropReady_waiting : (A.dropReady t).waiting e s = A.waiting e s := rfl

@[simp, grind =] theorem dropReady_ready : (A.dropReady t).ready = A.ready.erase t := rfl

@[simp, grind =] theorem dropReady_current : (A.dropReady t).current = A.current := rfl

@[simp, grind =] theorem dropReady_idle : (A.dropReady t).idle = A.idle := rfl

@[simp, grind =] theorem dequeue_tasks : (A.dequeue t endpoint side).tasks u = A.tasks u := rfl

@[simp, grind =] theorem dequeue_ready : (A.dequeue t endpoint side).ready = A.ready := rfl

@[simp, grind =] theorem dequeue_current : (A.dequeue t endpoint side).current = A.current := rfl

@[simp, grind =] theorem dequeue_idle : (A.dequeue t endpoint side).idle = A.idle := rfl

@[simp, grind =] theorem enqueue_tasks : (A.enqueue t endpoint side).tasks u = A.tasks u := rfl

@[simp, grind =] theorem enqueue_ready : (A.enqueue t endpoint side).ready = A.ready := rfl

@[simp, grind =] theorem enqueue_current : (A.enqueue t endpoint side).current = A.current := rfl

@[simp, grind =] theorem enqueue_idle : (A.enqueue t endpoint side).idle = A.idle := rfl

@[simp, grind =] theorem deliver_tasks : (A.deliver t v).tasks u = A.tasks u := rfl

@[simp, grind =] theorem deliver_ready : (A.deliver t v).ready = A.ready := rfl

@[simp, grind =] theorem deliver_current : (A.deliver t v).current = A.current := rfl

@[simp, grind =] theorem deliver_idle : (A.deliver t v).idle = A.idle := rfl

@[simp, grind =] theorem deliver_waiting : (A.deliver t v).waiting e s = A.waiting e s := rfl

variable {u} in
theorem mapTask_tasks_ne (h : u ≠ t) : (A.mapTask t f).tasks u = A.tasks u := upd_ne _ _ h

variable {u} in
theorem resched_tasks_ne {resume : Resume} (h : u ≠ A.current) :
    (A.resched resume).tasks u = A.tasks u := upd_ne _ _ h

/-- To leave the processor is no change of a state. -/
theorem resched_state (resume : Resume) :
    ((A.resched resume).tasks u).state = (A.tasks u).state := by
  unfold resched leave
  rw [mapTask_tasks, run_tasks, run_tasks]
  split
  · rename_i heq
    rw [heq]
  · rfl

theorem mapTask_mapTask (g : Task → Task) :
    (A.mapTask t f).mapTask t g = A.mapTask t fun task => g (f task) := by
  have htasks : upd (upd A.tasks t (f (A.tasks t))) t (g (upd A.tasks t (f (A.tasks t)) t))
      = upd A.tasks t (g (f (A.tasks t))) := by
    rw [upd_same]
    funext u
    rw [upd_apply, upd_apply, upd_apply]
    split <;> rfl
  unfold mapTask
  rw [htasks]

/-- A store of what is there already. -/
theorem mapTask_self (h : f (A.tasks t) = A.tasks t) : A.mapTask t f = A := by
  unfold mapTask
  rw [h, upd_self]

end Parts

end Desk

/-- The state `k` stands for the desk `A`. -/
structure Shows (k : Kernel) (A : Desk) : Prop where
  tasks : ∀ t, (k.tasks t).view = A.tasks t
  current : k.currentTask = A.current
  idle : k.idleTask = A.idle
  deliveries : k.deliveries = A.deliveries
  waiting : ∀ e s, Queue.Rep k.waitingLinks ((k.endpoints e).queue s) (A.waiting e s)
  one : ∀ e s e' s' t, t ∈ A.waiting e s → t ∈ A.waiting e' s' → e = e' ∧ s = s'
  alone : ∀ t, ¬ A.Queued t → k.waitingLinks.IsList [t]
  ready : Queue.Rep k.readyLinks k.readyQueue A.ready
  readyAlone : ∀ t, t ∉ A.ready → k.readyLinks.IsList [t]

/-- The transfer of a message stopped the kernel. -/
inductive TransferStops (env : Env) (e : Stop) (k' : Kernel) : Prop
  | ipcMsg (dst src : TaskPtr) (k : Kernel) (run : ipcTransferIpcMsg dst src env k = .stop e k')
  | killMsg (dst src : TaskPtr) (k : Kernel) (run : ipcTransferKillMsg dst src env k = .stop e k')

/-- A store to a task that no link sees. -/
def Plain (f : Task → Task) : Prop := ∀ task : Task, (f task).view = f task.view ∧
  (f task).prevReadyTask = task.prevReadyTask ∧ (f task).nextReadyTask = task.nextReadyTask ∧
  (f task).prevWaitingTask = task.prevWaitingTask ∧
  (f task).nextWaitingTask = task.nextWaitingTask

namespace Shows

variable {k k' : Kernel} {A : Desk} {env : Env} {E : Stop → Kernel → Prop}

section Fields

variable (h : Shows k A) (t : TaskPtr)

include h

theorem field {α : Type} (f : Task → α) (hf : ∀ task : Task, f task.view = f task) :
    f (k.tasks t) = f (A.tasks t) := by
  rw [← h.tasks t, hf]

theorem state : (k.tasks t).state = (A.tasks t).state := h.field t Task.state fun _ => rfl

theorem ipcState : (k.tasks t).ipcState = (A.tasks t).ipcState :=
  h.field t Task.ipcState fun _ => rfl

theorem ipcMsgState : (k.tasks t).ipcMsgState = (A.tasks t).ipcMsgState :=
  h.field t Task.ipcMsgState fun _ => rfl

theorem eventType : (k.tasks t).eventType = (A.tasks t).eventType :=
  h.field t Task.eventType fun _ => rfl

theorem endpoint : (k.tasks t).endpoint = (A.tasks t).endpoint :=
  h.field t Task.endpoint fun _ => rfl

theorem callerTask : (k.tasks t).callerTask = (A.tasks t).callerTask :=
  h.field t Task.callerTask fun _ => rfl

theorem calleeTask : (k.tasks t).calleeTask = (A.tasks t).calleeTask :=
  h.field t Task.calleeTask fun _ => rfl

theorem killNotify : (k.tasks t).killNotify = (A.tasks t).killNotify :=
  h.field t Task.killNotify fun _ => rfl

theorem context : (k.tasks t).context = (A.tasks t).context :=
  h.field t Task.context fun _ => rfl

theorem tid : (k.tasks t).tid = (A.tasks t).tid := h.field t Task.tid fun _ => rfl

omit t in
theorem head (e : EndpointPtr) (s : QueueSide) :
    ((k.endpoints e).queue s).head = (A.waiting e s).head? := (h.waiting e s).head

end Fields

/-! ### Frames -/

theorem frame (h : Shows k A) (hf : SchedFrame k k') : Shows k' A where
  tasks t := by
    rw [← h.tasks t]
    show ({ (k'.tasks t).bare with
      prevReadyTask := none, nextReadyTask := none
      prevWaitingTask := none, nextWaitingTask := none } : Task) = _
    rw [hf.tasks t]
    rfl
  current := hf.currentTask.trans h.current
  idle := hf.idleTask.trans h.idle
  deliveries := hf.deliveries.trans h.deliveries
  waiting e s := by
    rw [hf.waitingLinks, hf.endpoints]
    exact h.waiting e s
  one := h.one
  alone t ht := by
    rw [hf.waitingLinks]
    exact h.alone t ht
  ready := by
    rw [hf.readyLinks, hf.readyQueue]
    exact h.ready
  readyAlone t ht := by
    rw [hf.readyLinks]
    exact h.readyAlone t ht

theorem mapTask (h : Shows k A) {t : TaskPtr} {f : Task → Task} (hf : Plain f) :
    Shows (k.mapTask t f) (A.mapTask t f) := by
  have htasks : ∀ u, (k.mapTask t f).tasks u = if u = t then f (k.tasks t) else k.tasks u :=
    fun u => upd_apply _ _ _ _
  have hwaiting : (k.mapTask t f).waitingLinks = k.waitingLinks := by
    ext1 <;>
    · funext u
      simp only [Kernel.waitingLinks, htasks]
      split
      · rename_i heq
        rw [heq]
        first
          | exact (hf (k.tasks t)).2.2.2.1
          | exact (hf (k.tasks t)).2.2.2.2
      · rfl
  have hready : (k.mapTask t f).readyLinks = k.readyLinks := by
    ext1 <;>
    · funext u
      simp only [Kernel.readyLinks, htasks]
      split
      · rename_i heq
        rw [heq]
        first
          | exact (hf (k.tasks t)).2.1
          | exact (hf (k.tasks t)).2.2.1
      · rfl
  refine ⟨fun u => ?_, h.current, h.idle, h.deliveries, fun e s => ?_, h.one, fun u hu => ?_,
    ?_, fun u hu => ?_⟩
  · rw [htasks]
    show _ = upd A.tasks t _ u
    rw [upd_apply]
    split
    · rw [(hf (k.tasks t)).1, h.tasks]
    · exact h.tasks u
  · rw [hwaiting]
    exact h.waiting e s
  · rw [hwaiting]
    exact h.alone u hu
  · rw [hready]
    exact h.ready
  · rw [hready]
    exact h.readyAlone u hu

theorem setErrno (h : Shows k A) (e : SysError) : Shows { k with errno := e } A :=
  h.frame (.of_eq rfl rfl rfl rfl rfl rfl)

theorem run (h : Shows k A) (t : TaskPtr) : Shows { k with currentTask := t } (A.run t) :=
  ⟨h.tasks, rfl, h.idle, h.deliveries, h.waiting, h.one, h.alone, h.ready, h.readyAlone⟩

theorem record (h : Shows k A) (dst src : TaskPtr) :
    Shows (k.record (.deliver dst src)) (A.deliver dst src) := by
  refine ⟨h.tasks, h.current, h.idle, ?_, h.waiting, h.one, h.alone, h.ready, h.readyAlone⟩
  show (k.trace ++ [Event.deliver dst src]).filterMap Event.delivery = A.deliveries ++ [(dst, src)]
  rw [List.filterMap_append, ← h.deliveries]
  rfl

/-! ### Queues -/

/-- A store of new links to the waiting queues, and of the ends of one of them. -/
theorem requeued (h : Shows k A) {e : EndpointPtr} {s : QueueSide} {q : TaskQueue}
    {L : Links TaskPtr} {l : List TaskPtr} (hq : Queue.Rep L q l)
    (hone : ∀ t ∈ l, ∀ e' s', t ∈ A.waiting e' s' → e = e' ∧ s = s')
    (hother : ∀ t, t ∉ A.waiting e s → t ∉ l → L.prev t = k.waitingLinks.prev t ∧
      L.next t = k.waitingLinks.next t)
    (hout : ∀ t ∈ A.waiting e s, t ∉ l → L.IsList [t]) :
    Shows (k.requeued e s q L) (A.setWaiting e s l) := by
  have hlinks : (k.requeued e s q L).waitingLinks = L := rfl
  have hends : ∀ e' s', ((k.requeued e s q L).endpoints e').queue s'
      = if e' = e ∧ s' = s then q else (k.endpoints e').queue s' := by
    intro e' s'
    show (upd k.endpoints e ((k.endpoints e).setQueue q s) e').queue s' = _
    rw [upd_apply]
    by_cases he : e' = e
    · rw [if_pos he, he]
      cases s <;> cases s' <;> simp [Endpoint.setQueue, Endpoint.queue]
    · rw [if_neg he, if_neg fun hc => he hc.1]
  have hnot : ∀ {e' s'}, ¬ (e' = e ∧ s' = s) → ∀ t ∈ A.waiting e' s', t ∉ A.waiting e s ∧ t ∉ l := by
    intro e' s' hne t ht
    refine ⟨fun ht' => hne (h.one _ _ _ _ t ht ht'), fun ht' => hne ?_⟩
    obtain ⟨rfl, rfl⟩ := hone t ht' e' s' ht
    exact ⟨rfl, rfl⟩
  refine ⟨h.tasks, h.current, h.idle, h.deliveries, fun e' s' => ?_, fun e₁ s₁ e₂ s₂ t h₁ h₂ => ?_,
    fun t ht => ?_, h.ready, h.readyAlone⟩
  · rw [hlinks, hends, Desk.setWaiting_waiting]
    by_cases hes : e' = e ∧ s' = s
    · rw [if_pos hes, if_pos hes]
      exact hq
    · rw [if_neg hes, if_neg hes]
      refine (h.waiting e' s').congr fun t ht => ?_
      obtain ⟨ht₁, ht₂⟩ := hnot hes t ht
      exact hother t ht₁ ht₂
  · rw [Desk.setWaiting_waiting] at h₁ h₂
    split at h₁ <;> split at h₂
    · rename_i hc₁ hc₂
      exact ⟨hc₁.1.trans hc₂.1.symm, hc₁.2.trans hc₂.2.symm⟩
    · rename_i hc₁ _
      obtain ⟨rfl, rfl⟩ := hc₁
      exact hone t h₁ _ _ h₂
    · rename_i _ hc₂
      obtain ⟨rfl, rfl⟩ := hc₂
      obtain ⟨rfl, rfl⟩ := hone t h₂ _ _ h₁
      exact ⟨rfl, rfl⟩
    · exact h.one _ _ _ _ t h₁ h₂
  · rw [hlinks]
    have htl : t ∉ l := by
      intro htl
      refine ht ⟨e, s, ?_⟩
      rw [Desk.setWaiting_waiting, if_pos ⟨rfl, rfl⟩]
      exact htl
    by_cases hw : t ∈ A.waiting e s
    · exact hout t hw htl
    · have hq' : ¬ A.Queued t := by
        rintro ⟨e', s', ht'⟩
        refine ht ⟨e', s', ?_⟩
        rw [Desk.setWaiting_waiting, if_neg]
        · exact ht'
        · rintro ⟨rfl, rfl⟩
          exact hw ht'
      obtain ⟨hp, hn⟩ := hother t hw htl
      have halone := h.alone t hq'
      rw [Links.isList_singleton] at halone ⊢
      exact ⟨hp.trans halone.1, hn.trans halone.2⟩

theorem wp_kassert_true {p : Prop} [Decidable p] (hp : p) {Q : Unit → Kernel → Prop}
    (hQ : Q () k) : wp (kassert p) env Q E k := by
  unfold kassert
  rw [wp_bind, wp_ask, wp_ite]
  split
  · exact hQ
  · simpa [hp] using hQ

/-- An assertion, in either build. -/
theorem wp_kassert_or {p : Prop} [Decidable p] {Q : Unit → Kernel → Prop}
    (hQ : env.ndebug = true ∨ p → Q () k)
    (hE : env.ndebug = false → ¬ p → E .assertFailed k) : wp (kassert p) env Q E k := by
  unfold kassert
  rw [wp_bind, wp_ask, wp_ite]
  split
  · rename_i hd
    exact hQ (Or.inl hd)
  · rename_i hd
    rw [wp_ite]
    split
    · rename_i hp
      exact hQ (Or.inr hp)
    · rename_i hp
      exact hE (by simpa using hd) hp

variable {e : EndpointPtr} {s : QueueSide} {t : TaskPtr} {Q : Unit → Kernel → Prop}

theorem wp_pushWaitingQueue (h : Shows k A) (hq : ¬ A.Queued t)
    (hstate : env.ndebug = false → (A.tasks t).state ≠ .waiting → E .assertFailed k)
    (hQ : ∀ k', Shows k' (A.enqueue t e s) → Q () k') :
    wp (pushWaitingQueue e s t) env Q E k := by
  obtain ⟨hp, hn⟩ := Links.isList_singleton.mp (h.alone t hq)
  have htl : t ∉ A.waiting e s := fun ht => hq ⟨e, s, ht⟩
  obtain ⟨q', L', hpush, hrep, hother⟩ := (h.waiting e s).push (h.alone t hq) htl
  unfold pushWaitingQueue
  rw [wp_bind, wp_get, wp_bind]
  refine wp_kassert_or (fun _ => ?_) fun hd hs => hstate hd fun heq => hs (h.state t ▸ heq)
  rw [wp_bind, wp_get, wp_bind]
  refine wp_kassert_true hp ?_
  rw [wp_bind, wp_get, wp_bind]
  refine wp_kassert_true hn ?_
  rw [wp_bind, wp_get, wp_bind, wp_get, wp_bind, hpush, wp_deref]
  refine hQ _ (h.requeued hrep (fun u hu e' s' hu' => ?_) (fun u hu hul => ?_) fun u hu hul => ?_)
  · rcases List.mem_append.mp hu with hu | hu
    · exact h.one _ _ _ _ u hu hu'
    · rw [List.mem_singleton.mp hu] at hu'
      exact absurd ⟨e', s', hu'⟩ hq
  · refine hother u hu fun heq => hul ?_
    simp [heq]
  · exact absurd (List.mem_append_left [t] hu) hul

theorem wp_removeWaitingQueue (h : Shows k A) (ht : t ∈ A.waiting e s)
    (hstate : env.ndebug = false → (A.tasks t).state ≠ .waiting → E .assertFailed k)
    (hQ : ∀ k', Shows k' (A.dequeue t e s) → Q () k') :
    wp (removeWaitingQueue e s t) env Q E k := by
  obtain ⟨a, b, hl⟩ := List.append_of_mem ht
  have hw := h.waiting e s
  rw [hl] at hw
  obtain ⟨q', hremove, hrep⟩ := hw.remove
  have hnd := hw.list.nodup
  have hta : t ∉ a := fun hta => (List.nodup_append.mp hnd).2.2 t hta t (by simp) rfl
  have htb : t ∉ b := (List.nodup_cons.mp (List.nodup_append.mp hnd).2.1).1
  have herase : (A.waiting e s).erase t = a ++ b := by
    rw [hl, List.erase_append_right _ hta, List.erase_cons_head]
  unfold removeWaitingQueue
  rw [wp_bind, wp_get, wp_bind]
  refine wp_kassert_or (fun _ => ?_) fun hd hs => hstate hd fun heq => hs (h.state t ▸ heq)
  rw [wp_bind, wp_get, wp_bind, wp_get, wp_bind, hremove, wp_deref]
  refine hQ _ ?_
  show Shows (k.requeued e s q' _) _
  unfold Desk.dequeue
  rw [herase]
  refine h.requeued hrep (fun u hu e' s' hu' => ?_) (fun u hu hul => ?_) fun u hu hul => ?_
  · refine h.one _ _ _ _ u ?_ hu'
    rw [hl]
    rcases List.mem_append.mp hu with hu | hu
    · exact List.mem_append_left _ hu
    · exact List.mem_append_right _ (List.mem_cons_of_mem _ hu)
  · rw [hl] at hu
    exact hw.list.erase_outside (by simp) hu
  · have hut : u = t := by
      rw [hl] at hu
      rcases List.mem_append.mp hu with hu | hu
      · exact absurd (List.mem_append_left b hu) hul
      · rcases List.mem_cons.mp hu with hu | hu
        · exact hu
        · exact absurd (List.mem_append_right a hu) hul
    rw [hut]
    exact Links.erase_isolated

theorem wp_pushReadyQueue (h : Shows k A) (ht : t ∉ A.ready)
    (hstate : env.ndebug = false → (A.tasks t).state ≠ .ready → E .assertFailed k)
    (hQ : ∀ k', Shows k' (A.pushReady t) → Q () k') : wp (pushReadyQueue t) env Q E k := by
  obtain ⟨hp, hn⟩ := Links.isList_singleton.mp (h.readyAlone t ht)
  obtain ⟨q', L', hpush, hrep, hother⟩ := h.ready.push (h.readyAlone t ht) ht
  unfold pushReadyQueue
  rw [wp_bind, wp_get, wp_bind]
  refine wp_kassert_or (fun _ => ?_) fun hd hs => hstate hd fun heq => hs (h.state t ▸ heq)
  rw [wp_bind, wp_get, wp_bind]
  refine wp_kassert_true hp ?_
  rw [wp_bind, wp_get, wp_bind]
  refine wp_kassert_true hn ?_
  rw [wp_bind, wp_get, wp_bind, wp_get, wp_bind, hpush, wp_deref]
  refine hQ _ ⟨h.tasks, h.current, h.idle, h.deliveries, h.waiting, h.one, h.alone, hrep,
    fun u hu => ?_⟩
  rw [Desk.pushReady_ready, List.mem_append, List.mem_singleton, not_or] at hu
  obtain ⟨hpu, hnu⟩ := hother u hu.1 hu.2
  have halone := h.readyAlone u hu.1
  show L'.IsList [u]
  rw [Links.isList_singleton] at halone ⊢
  exact ⟨hpu.trans halone.1, hnu.trans halone.2⟩

theorem wp_removeReadyQueue (h : Shows k A) (ht : t ∈ A.ready)
    (hstate : (A.tasks t).state = .ready) (hQ : ∀ k', Shows k' (A.dropReady t) → Q () k') :
    wp (removeReadyQueue t) env Q E k := by
  obtain ⟨a, b, hl⟩ := List.append_of_mem ht
  have hw := h.ready
  rw [hl] at hw
  obtain ⟨q', hremove, hrep⟩ := hw.remove
  have hnd := hw.list.nodup
  have hta : t ∉ a := fun hta => (List.nodup_append.mp hnd).2.2 t hta t (by simp) rfl
  have herase : A.ready.erase t = a ++ b := by
    rw [hl, List.erase_append_right _ hta, List.erase_cons_head]
  unfold removeReadyQueue
  rw [wp_bind, wp_get, wp_bind]
  refine wp_kassert_true (h.state t ▸ hstate) ?_
  rw [wp_bind, wp_get, wp_bind, wp_get, wp_bind, hremove, wp_deref]
  refine hQ _ ⟨h.tasks, h.current, h.idle, h.deliveries, h.waiting, h.one, h.alone, ?_,
    fun u hu => ?_⟩
  · rw [Desk.dropReady_ready, herase]
    exact hrep
  · rw [Desk.dropReady_ready, herase] at hu
    show (k.readyLinks.erase t).IsList [u]
    by_cases hut : u = t
    · rw [hut]
      exact Links.erase_isolated
    · have hul : u ∉ a ++ t :: b := by
        intro hul
        rcases List.mem_append.mp hul with hul | hul
        · exact hu (List.mem_append_left b hul)
        · rcases List.mem_cons.mp hul with hul | hul
          · exact hut hul
          · exact hu (List.mem_append_right a hul)
      have halone := h.readyAlone u (hl ▸ hul)
      obtain ⟨hp, hn⟩ := hw.list.erase_outside (List.mem_append_right a List.mem_cons_self) hul
      rw [Links.isList_singleton] at halone ⊢
      exact ⟨hp.trans halone.1, hn.trans halone.2⟩

/-! ### Tasks, messages and the processor -/

theorem wp_modifyTask (h : Shows k A) {f : Task → Task} (hf : Plain f)
    (hQ : ∀ k', Shows k' (A.mapTask t f) → Q () k') : wp (modifyTask t f) env Q E k :=
  hQ _ (h.mapTask hf)

/-- A message is handed over, or it is not. -/
theorem wp_transfer (h : Shows k A) {dst src : TaskPtr} {Q : Bool → Kernel → Prop}
    (hE : ∀ e k', e ≠ .switched → TransferStops env e k' → E e k')
    (hQ : ∀ sent k', Shows k' (if sent then A.deliver dst src else A) → Q sent k') :
    wp (ipcTransferIpcMsg dst src) env Q E k := by
  refine wp_mono (wp_self ((avoids_ipcTransferIpcMsg dst src).wp
    (SchedFrame.wp_ipcTransferIpcMsg dst src))) (fun sent k' hk' => ?_)
    fun e k' he => hE e k' he.1.1 (.ipcMsg dst src k he.2)
  obtain ⟨⟨k₁, hframe, rfl⟩, -⟩ := hk'
  refine hQ sent _ ?_
  cases sent with
  | true => exact (h.frame hframe).record dst src
  | false => exact h.frame hframe

theorem wp_transferKill (h : Shows k A) {dst src : TaskPtr} {Q : Bool → Kernel → Prop}
    (hE : ∀ e k', e ≠ .switched → e ≠ .nullDeref →
      ipcTransferKillMsg dst src env k = .stop e k' → E e k')
    (hQ : ∀ sent k', ipcTransferKillMsg dst src env k = .ok sent k' → Shows k' (if sent then
      A.mapTask dst fun t => { t with ipcMsgState := .empty } else A) → Q sent k') :
    wp (ipcTransferKillMsg dst src) env Q E k := by
  refine wp_mono (wp_self ((avoids_ipcTransferKillMsg dst src).wp
    ((avoids_ipcTransferKillMsg dst src).wp (wp_ipcTransferKillMsg dst src)))) (fun sent k' hk' => ?_)
    fun e k' he => hE e k' he.1.1 he.1.2.1 he.2
  obtain ⟨⟨k₁, hframe, rfl⟩, hrun⟩ := hk'
  refine hQ sent _ hrun ?_
  cases sent with
  | true =>
    exact (h.frame hframe).mapTask (f := fun t => { t with ipcMsgState := .empty })
      fun _ => ⟨rfl, rfl, rfl, rfl, rfl⟩
  | false => exact h.frame hframe

theorem wp_resched {α : Type} {Q : α → Kernel → Prop} (h : Shows k A) {resume : Resume}
    (hE : ∀ k', Shows k' (A.resched resume) → E .switched k') :
    wp (Caprese.resched resume : K α) env Q E k := by
  refine hE _ ?_
  have hrun := h.run k.idleTask
  rw [h.idle] at hrun
  have hleave := hrun.mapTask (t := k.currentTask)
    (f := fun task => { task with context := resume }) fun _ => ⟨rfl, rfl, rfl, rfl, rfl⟩
  rw [h.current] at hleave
  rw [← h.idle] at hleave
  unfold Desk.resched Desk.leave
  rw [← h.idle, ← h.current]
  rw [← h.current] at hleave
  exact hleave

end Shows

end Caprese
