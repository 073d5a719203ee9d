import Caprese.Proofs.Killed

/-!
# `Caprese.Proofs.Notice`: the notice of a killed task

`ipc_send_kill_notify` ends in `resched`, which gives the processor away without a trace of who
had it. So a kill with a notice loses the killer, unless the killer kills itself, and then the
notice reaches a receiver that waits; one that has to wait itself meets an assertion
(`kill_notified_iff`).
-/

set_option autoImplicit false

namespace Caprese

open Lib Prog

/-- The state of the kernel in which the notice of a task that is in no queue is sent. -/
def Kernel.buried (k : Kernel) (t : TaskPtr) (i : Int) : Kernel :=
  k.mapTask t fun task => { task with state := .killed, exitStatus := i }

/-- The buffer of the receiver takes the notice of the task. -/
def TakesNotice (env : Env) (k : Kernel) (r t : TaskPtr) : Prop :=
  ∃ k', ipcTransferKillMsg r t env k = .ok true k'

/-- There is one notice of the task: it waits in the queue of senders, or the first receiver has
it and goes on. -/
def OneNotice (env : Env) (k k' : Kernel) (t : TaskPtr) (i : Int) (e : EndpointPtr) : Prop :=
  (∃ l, Queue.Rep k'.waitingLinks (k'.endpoints e).senderQueue l ∧ t ∈ l) ∨
  k'.InNoQueue t ∧ ∃ r, (k.endpoints e).receiverQueue.head = some r ∧
    TakesNotice env (k.buried t i) r t ∧
    (k'.tasks r).state = .ready ∧ (k'.tasks r).ipcState = .none

/-- The task has the processor, or waits for it. -/
def Kernel.Keeps (k : Kernel) (t : TaskPtr) : Prop :=
  k.currentTask = t ∨ ∃ l, Queue.Rep k.readyLinks k.readyQueue l ∧ t ∈ l

/-- A kill comes to its end with one notice, and another task that made it is not lost. -/
def Notified (env : Env) (c : Core) (t : TaskPtr) (i : Int) (e : EndpointPtr) : Prop :=
  ∃ answer c', CoreStep env c (.invoke (.kill t i), answer) c' ∧
    OneNotice env c.kernel c'.kernel t i e ∧
    (t ≠ c.kernel.currentTask → c'.kernel.Keeps c.kernel.currentTask)

/-- The task kills itself, in none of the states that stop a kill, and its notice finds a
receiver, or may wait for one. -/
def NotifiesWell (env : Env) (k : Kernel) (t : TaskPtr) (i : Int) (e : EndpointPtr) : Prop :=
  t = k.currentTask ∧ ((k.tasks t).state = .waiting → (k.tasks t).endpoint = none) ∧
  (env.ndebug = true ∨ (k.tasks t).state ≠ .unused) ∧
  match (k.endpoints e).receiverQueue.head with
  | some r => TakesNotice env (k.buried t i) r t
  | none => env.ndebug = true

section Self

variable {env : Env} {k : Kernel} {A : Desk} {N : Desk.Allows} {e : EndpointPtr} {i : Int}

/-- A task that has the processor and is in no queue kills itself. -/
theorem Shows.wp_killSelf {E : Stop → Kernel → Prop} (h : Shows k A) (hI : A.Inv N)
    (hp : A.Proper) (hu : A.User) (hdeaths : N.deaths)
    (hnotify : (A.tasks A.current).killNotify = some e)
    (hwaiting : (A.tasks A.current).state = .waiting → (A.tasks A.current).endpoint = none)
    (hunused : env.ndebug = true ∨ (A.tasks A.current).state ≠ .unused)
    (hT : ∀ r s k', A.First e .receiver r → s ≠ .switched →
      ipcTransferKillMsg r A.current env (k.buried A.current i) = .stop s k' → E s k')
    (hP : env.ndebug = false → A.waiting e .receiver = [] → ∀ k', E .assertFailed k')
    (htold : ∀ r sent k₁ k', A.First e .receiver r →
      ipcTransferKillMsg r A.current env (k.buried A.current i) = .ok sent k₁ →
      Shows k' ((((A.bury A.current i).dequeue r e .receiver).wake r Task.received).resched
        (.killNotify A.current)) → E .switched k')
    (hqueued : env.ndebug = true → A.waiting e .receiver = [] → ∀ k', Shows k'
      ((((A.bury A.current i).mapTask A.current fun task =>
        { task with ipcState := .sending, eventType := .kill, endpoint := some e }).enqueue
          A.current e .sender).resched (.killNotify A.current)) → E .switched k') :
    wp (killTask A.current i) env (fun _ _ => False) E k := by
  -- The current task is in no queue, so the switch of `kill_task` does nothing.
  have hunlink : A.unlink A.current = A := by
    unfold Desk.unlink
    cases hstate : (A.tasks A.current).state with
    | ready => exact absurd hstate hu.notReady
    | waiting =>
      dsimp only
      rw [hwaiting hstate]
    | _ => rfl
  have hleave : ∀ {Q : Unit → Kernel → Prop}, Q () k → wp (leaveQueues A.current) env Q E k := by
    intro Q hQ
    unfold leaveQueues
    rw [wp_bind, wp_get, h.state]
    cases hstate : (A.tasks A.current).state with
    | ready => exact absurd hstate hu.notReady
    | waiting =>
      dsimp only
      rw [wp_bind, wp_get, h.endpoint, hwaiting hstate]
      exact hQ
    | _ => exact hQ
  have hfound : A.Found A.current := by
    intro hstate e' he'
    rw [hwaiting hstate] at he'
    exact absurd he' (by simp)
  obtain ⟨hB, -, -⟩ := hI.bury (i := i) hdeaths hp hu.notIdle hfound
  have hbury : A.bury A.current i = A.mapTask A.current fun task =>
      { task with state := .killed, exitStatus := i } := by
    unfold Desk.bury
    rw [hunlink]
  -- No queue has changed when the notice is sent.
  have hwait : ∀ e' side, (A.bury A.current i).waiting e' side = A.waiting e' side := by
    intro e' side
    rw [hbury]
    rfl
  have hdead : ((A.bury A.current i).tasks A.current).state = .killed := by
    rw [Desk.bury_tasks.1, if_pos rfl]
  have hnotify' : ((A.bury A.current i).tasks A.current).killNotify = some e :=
    Desk.bury_tasks.2.2.1.trans hnotify
  unfold killTask
  rw [wp_bind, wp_get, wp_bind, h.state]
  refine Shows.wp_kassert_or (fun _ => ?_) fun hd hne => ?_
  · rw [wp_bind]
    refine hleave ?_
    rw [wp_bind]
    have h₁ : Shows (k.buried A.current i) (A.bury A.current i) := by
      rw [hbury]
      exact h.mapTask fun _ => ⟨rfl, rfl, rfl, rfl, rfl⟩
    show wp (do notifyKill A.current; killTaskTail A.current) env _ _ (k.buried A.current i)
    unfold notifyKill
    rw [wp_bind, wp_bind, wp_get, h₁.killNotify, hnotify']
    refine h₁.wp_ipcSendKillNotify hB hdead (fun _ => ?_)
      (fun r s k' first hne _ hrun => hT r s k' ?_ hne hrun)
      (fun hd hempty => hP hd ((hwait e .receiver).symm.trans hempty))
      (fun r sent k₁ k' first hrun hk' => htold r sent k₁ k' ?_ hrun hk')
      (fun hd hempty k' hk' => hqueued hd ((hwait e .receiver).symm.trans hempty) k' hk')
    · rintro ⟨e', side, ht⟩
      rw [hwait] at ht
      exact hu.notQueued ⟨e', side, ht⟩
    · unfold Desk.First at first ⊢
      rwa [hwait] at first
    · unfold Desk.First at first ⊢
      rwa [hwait] at first
  · rcases hunused with hd' | hused
    · rw [hd] at hd'
      exact absurd hd' (by decide)
    · exact absurd hused hne

theorem wp_serveKill {E : Stop → Kernel → Prop} {t : TaskPtr}
    (h : wp (killTask t i) env (fun _ _ => False) E k) :
    wp (Op.kill t i).serve env (fun _ _ => False) E k := by
  show wp (do killTask t i; return true) env _ _ k
  rw [wp_bind]
  exact wp_mono h (fun _ _ => False.elim) fun _ _ => id

end Self

/-! ### The killer -/

section Kills

variable {env : Env} {c c' : Core} {t : TaskPtr} {e : EndpointPtr} {i : Int}
  {answer : Option Bool}

/-- The killer of another task is lost where a notice is sent. -/
theorem Disciplined.killer_lost (h : Disciplined ⟨True, env.ndebug = true⟩ c)
    (hok : c.kernel.Orderly (.invoke (.kill t i)))
    (hstep : CoreStep env c (.invoke (.kill t i), answer) c')
    (hnotify : (c.kernel.tasks t).killNotify = some e) (hne : t ≠ c.kernel.currentTask) :
    ¬ c'.kernel.Keeps c.kernel.currentTask := by
  obtain ⟨A, B, hA, hI, hu, hB, ⟨-, he⟩, hIB, -, -⟩ := h.invoke Kernel.Orderly.admits hok hstep
  rw [hA.killNotify] at hnotify
  rw [hA.current] at hne ⊢
  have hcur := Desk.bury_current (A := A) (t := t) (i := i)
  have hsame := Desk.bury_tasks (A := A) (t := t) (i := i) (u := A.current)
  rw [if_neg (Ne.symm hne)] at hsame
  -- The idle task has the processor, and the killer's state is what it was.
  obtain ⟨hidle, hstate⟩ : B.current = A.idle ∧
      (B.tasks A.current).state = (A.tasks A.current).state := by
    have hsilent := Desk.bury_tasks (A := A) (t := t) (i := i) (u := t)
    rw [hnotify] at hsilent
    cases he with
    | other hnone _ =>
      rw [hsilent.2.2.1] at hnone
      exact absurd hnone (by simp)
    | self hnone _ =>
      rw [hsilent.2.2.1] at hnone
      exact absurd hnone (by simp)
    | @told e' r _ first =>
      have hr : A.current ≠ r := by
        rintro rfl
        exact hu.notQueued ⟨e', .receiver, Desk.bury_mem hA.proper first.mem⟩
      refine ⟨hcur.2, ?_⟩
      rw [Desk.resched_state, Desk.wake_tasks, if_neg hr, Desk.dequeue_tasks, hsame.1]
    | queued _ _ _ =>
      refine ⟨hcur.2, ?_⟩
      rw [Desk.resched_state, Desk.enqueue_tasks, Desk.mapTask_tasks_ne _ _ _ (Ne.symm hne), hsame.1]
  rintro (heq | ⟨l, hl, hmem⟩)
  · rw [hB.current, hidle] at heq
    exact hu.notIdle heq.symm
  · rw [hl.unique hB.ready, hIB.ready, hstate] at hmem
    exact hu.notReady hmem.1

/-- A kill of no task comes to no end where assertions are on. -/
theorem Shows.kill_unused {k : Kernel} {A : Desk} (h : Shows k A) (hd : env.ndebug = false)
    (hunused : (A.tasks t).state = .unused) :
    wp (Op.kill t i).serve env (fun _ _ => False) (fun s _ => s = .assertFailed) k := by
  show wp (do killTask t i; return true) env _ _ k
  unfold killTask
  rw [wp_bind, wp_bind, wp_get, wp_bind, h.state]
  refine Shows.wp_kassert_or (fun hor => ?_) fun _ _ => rfl
  rcases hor with hd' | hused
  · rw [hd] at hd'
    exact absurd hd' (by decide)
  · exact absurd hunused hused

/-- A kill that comes to its end as it should is one that could. -/
theorem Disciplined.notifiesWell (h : Disciplined ⟨True, env.ndebug = true⟩ c)
    (hok : c.kernel.Orderly (.invoke (.kill t i)))
    (hnotify : (c.kernel.tasks t).killNotify = some e) (hn : Notified env c t i e) :
    NotifiesWell env c.kernel t i e := by
  obtain ⟨answer, c', hstep, hone, hkeeps⟩ := hn
  -- A task that kills another one does not come back from its call.
  obtain rfl : t = c.kernel.currentTask := by
    by_contra hne
    exact h.killer_lost hok hstep hnotify hne (hkeeps hne)
  obtain ⟨A, B, hA, hI, hu, hB, ⟨hfound, -⟩, -, -, -⟩ := h.invoke Kernel.Orderly.admits hok hstep
  rw [hA.killNotify, hA.current] at hnotify
  have hwaiting : (A.tasks A.current).state = .waiting → (A.tasks A.current).endpoint = none := by
    intro hw
    refine Option.eq_none_iff_forall_ne_some.mpr fun e' he' => ?_
    rw [hA.current] at hfound
    rcases hfound hw e' he' with ⟨-, hq⟩ | ⟨s, hs⟩
    · exact hu.notQueued hq
    · have hcallee := (hI.caller_waits hs).2
      rw [hu.callee] at hcallee
      exact absurd hcallee (by simp)
  -- The first assertion of `kill_task` asks for a task in use.
  have hunused : env.ndebug = true ∨ (A.tasks A.current).state ≠ .unused := by
    by_contra hnot
    obtain ⟨hd, hunused⟩ := not_or.mp hnot
    rw [hA.current] at hstep
    rcases hstep.of_wp (hA.kill_unused (by simpa using hd) (not_not.mp hunused)) with
      ⟨_, -, hfalse⟩ | ⟨-, hfailed⟩
    · exact hfalse
    · exact absurd hfailed (by decide)
  refine ⟨rfl, ?_, ?_, ?_⟩
  · rw [hA.current, hA.state, hA.endpoint]
    exact hwaiting
  · rw [hA.current, hA.state]
    exact hunused
  · rw [hA.current] at hstep hone ⊢
    have hwp := @Shows.wp_killSelf env _ _ _ _ i hA hI hA.proper hu trivial hnotify hwaiting
      hunused (E := fun s k' => s = .switched →
        (∃ r sent k₁, (c.kernel.endpoints e).receiverQueue.head = some r ∧
          ipcTransferKillMsg r A.current env (c.kernel.buried A.current i) = .ok sent k₁ ∧
          ∀ l, Queue.Rep k'.waitingLinks (k'.endpoints e).senderQueue l → A.current ∉ l) ∨
        env.ndebug = true ∧ (c.kernel.endpoints e).receiverQueue.head = none)
      (fun _ _ _ _ hne _ hs => absurd hs hne) (fun _ _ _ hs => absurd hs (by decide))
      (fun r sent k₁ k' first hrun hk' _ => Or.inl ⟨r, sent, k₁, ?_, hrun, fun l hl hmem => ?_⟩)
      (fun hd hempty k' _ _ => Or.inr ⟨hd, ?_⟩)
    · rcases hstep.of_wp (wp_serveKill hwp) with ⟨_, -, hfalse⟩ | ⟨-, hend⟩
      · exact absurd hfalse id
      · rcases hend rfl with ⟨r, sent, k₁, hhead, hrun, hout⟩ | ⟨hd, hhead⟩
        · rw [hhead]
          cases sent with
          | true => exact ⟨k₁, hrun⟩
          | false =>
            -- The notice waits at the endpoint, or the first receiver has got it.
            rcases hone with ⟨l, hl, hmem⟩ | ⟨-, r', hhead', ⟨k₂, hrun'⟩, -⟩
            · exact absurd hmem (hout l hl)
            · obtain rfl : r = r' := Option.some.inj (hhead.symm.trans hhead')
              rw [hrun] at hrun'
              exact absurd hrun' (by simp)
        · rw [hhead]
          exact hd
    · exact (hA.head e .receiver).trans first
    · rw [hl.unique (hk'.waiting e .sender)] at hmem
      obtain ⟨-, hpB, -⟩ := hI.bury (i := i) trivial hA.proper hu.notIdle (hA.current ▸ hfound)
      exact hu.notQueued ⟨e, .sender, Desk.bury_mem hA.proper ((Desk.mem_dequeue hpB).mp hmem).1⟩
    · show ((c.kernel.endpoints e).queue .receiver).head = none
      rw [hA.head, hempty]
      rfl

/-- A kill that can come to its end as it should does so. -/
theorem Disciplined.notified (h : Disciplined ⟨True, env.ndebug = true⟩ c)
    (huser : c.mode = .user) (hnotify : (c.kernel.tasks t).killNotify = some e)
    (hn : NotifiesWell env c.kernel t i e) : Notified env c t i e := by
  obtain ⟨A, hA, hI, hu⟩ := h
  rw [huser] at hu
  replace hu : A.User := hu
  obtain ⟨rfl, hwaiting, hunused, hnotice⟩ := hn
  rw [hA.killNotify, hA.current] at hnotify
  rw [hA.current, hA.state, hA.endpoint] at hwaiting
  rw [hA.current, hA.state] at hunused
  have hhead : ∀ r, A.First e .receiver r → (c.kernel.endpoints e).receiverQueue.head = some r :=
    fun r first => (hA.head e .receiver).trans first
  have htakes : ∀ r, A.First e .receiver r →
      TakesNotice env (c.kernel.buried A.current i) r A.current := by
    intro r first
    rw [hhead r first, hA.current] at hnotice
    exact hnotice
  have hfound : A.Found A.current := by
    intro hw e' he'
    rw [hwaiting hw] at he'
    exact absurd he' (by simp)
  obtain ⟨hB, hpB, -⟩ := hI.bury (i := i) trivial hA.proper hu.notIdle hfound
  -- The ways in which the kill can stop: only with the notice sent, or with one that waits.
  have hwp := @Shows.wp_killSelf env _ _ _ _ i hA hI hA.proper hu trivial hnotify hwaiting
    hunused (E := fun s k' => s = .switched ∧ OneNotice env c.kernel k' A.current i e)
    (fun r s k' first _ hrun => ?_) (fun hd hempty k' => ?_)
    (fun r sent k₁ k' first hrun hk' => ⟨rfl, Or.inr ⟨?_, r, hhead r first, htakes r first, ?_⟩⟩)
    (fun hd hempty k' hk' => ⟨rfl, Or.inl ⟨_, hk'.waiting e .sender, ?_⟩⟩)
  · obtain ⟨s, k', hrun, rfl, hone⟩ := wp_stops (wp_serveKill hwp)
    refine ⟨none, ⟨k', .kernel⟩, ?_, hA.current ▸ hone, fun hne => absurd rfl hne⟩
    rw [hA.current]
    refine .invoke huser (fun heq => ?_) ?_
    · rw [hA.idle] at heq
      exact hu.notIdle (Option.some.inj heq)
    · rw [hrun]
      rfl
  · obtain ⟨k₁, htaken⟩ := htakes r first
    rw [hrun] at htaken
    exact absurd htaken (by simp)
  · have hnone : (c.kernel.endpoints e).receiverQueue.head = none := by
      show ((c.kernel.endpoints e).queue .receiver).head = none
      rw [hA.head, hempty]
      rfl
    rw [hnone] at hnotice
    have hrelease : env.ndebug = true := hnotice
    rw [hd] at hrelease
    exact absurd hrelease (by decide)
  · refine hk'.inNoQueue_iff.mpr ?_
    rintro ⟨e', side, hmem⟩
    exact hu.notQueued ⟨e', side, Desk.bury_mem hA.proper ((Desk.mem_dequeue hpB).mp hmem).1⟩
  · rw [hk'.state, hk'.ipcState]
    have hne : r ≠ (((A.bury A.current i).dequeue r e .receiver).wake r Task.received).current := by
      show r ≠ (A.bury A.current i).current
      rw [Desk.bury_current.1]
      rintro rfl
      exact hu.notQueued ⟨e, .receiver, first.mem⟩
    rw [Desk.resched_tasks_ne _ hne, Desk.wake_tasks, if_pos rfl]
    exact ⟨rfl, rfl⟩
  · exact Desk.mem_enqueue.mpr (Or.inr ⟨rfl, rfl, rfl⟩)

end Kills

end Caprese
