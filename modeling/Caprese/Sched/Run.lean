import Caprese.Sched.Refine

/-!
# `Caprese.Sched.Run`: the core from a quiet start

A run of the core starts `Quiet`: no task is in the middle of a message, and the ready queue
holds the ready tasks. `Disciplined` is what every state of a run then keeps, as long as its
operations are orderly (`Disciplined.run`). `Disciplined.invoke` and `Disciplined.goOn` tell
what one step did to the desk.
-/

set_option autoImplicit false

namespace Caprese

open Lib Prog

/-- Nobody waits, nobody is bound, and the ready queue holds the ready tasks. -/
structure Quiet (k : Kernel) : Prop where
  queues : ∀ e, k.endpoints e = ⟨⟨none, none⟩, ⟨none, none⟩⟩
  unlinked : ∀ t, (k.tasks t).prevWaitingTask = none ∧ (k.tasks t).nextWaitingTask = none
  unbound : ∀ t, (k.tasks t).callerTask = none ∧ (k.tasks t).calleeTask = none
  resting : ∀ t, (k.tasks t).state ≠ .waiting
  ready : ∃ l, Queue.Rep k.readyLinks k.readyQueue l ∧
    (∀ t, t ∈ l ↔ (k.tasks t).state = .ready ∧ t ≠ k.idleTask) ∧
    ∀ t, t ∉ l → (k.tasks t).prevReadyTask = none ∧ (k.tasks t).nextReadyTask = none
  contexts : ∀ t, t ≠ k.idleTask → (k.tasks t).context = .returnToUserMode
  idle : (k.tasks k.idleTask).context = .idle ∧ (k.tasks k.idleTask).state = .ready
  current : k.currentTask ≠ k.idleTask ∧ (k.tasks k.currentTask).state ≠ .ready ∧
    (k.tasks k.currentTask).state ≠ .killed

/-- The state shows a desk of the joint discipline. -/
def Disciplined (N : Desk.Allows) (c : Core) : Prop :=
  ∃ A, Shows c.kernel A ∧ A.Inv N ∧
    match c.mode with
    | .user => A.User
    | .kernel => A.SwitchedIn

variable {env : Env} {N : Desk.Allows} {c c' : Core} {k : Kernel} {op : Op}
  {answer : Option Bool}

theorem Shows.proper {A : Desk} (h : Shows k A) : A.Proper :=
  ⟨h.ready.list.nodup, fun e s => (h.waiting e s).list.nodup, h.one⟩

/-- The desk of a quiet state, with its ready tasks. -/
def Kernel.quietDesk (k : Kernel) (ready : List TaskPtr) : Desk where
  tasks t := (k.tasks t).view
  ready := ready
  waiting _ _ := []
  current := k.currentTask
  idle := k.idleTask
  deliveries := k.deliveries

theorem Quiet.disciplined (h : Quiet k) : Disciplined N ⟨k, .user⟩ := by
  obtain ⟨l, hrep, hmem, hout⟩ := h.ready
  -- No queue but the ready one has a task, and nobody is bound, so most clauses are empty.
  refine ⟨k.quietDesk l, ?_, ?_, ?_⟩
  · refine ⟨fun _ => rfl, rfl, rfl, rfl, fun e s => ?_, fun e s _ _ t ht => ?_,
      fun t _ => ?_, hrep, fun t ht => ?_⟩
    · show Queue.Rep _ ((k.endpoints e).queue s) []
      rw [h.queues e]
      cases s <;> exact Queue.Rep.empty
    · exact absurd ht (by simp [Kernel.quietDesk])
    · exact Links.isList_singleton.mpr (h.unlinked t)
    · exact Links.isList_singleton.mpr (hout t ht)
  · constructor
    · intro e t ht
      exact absurd ht (by simp [Kernel.quietDesk])
    · intro e t ht
      exact absurd ht (by simp [Kernel.quietDesk])
    · intro e s r hs
      exact absurd hs (by simp [Kernel.quietDesk])
    · intro t s hs
      have hnone : (k.tasks t).calleeTask = some s := hs
      rw [(h.unbound t).2] at hnone
      exact absurd hnone (by simp)
    · intro s t hs
      have hnone : (k.tasks s).callerTask = some t := hs
      rw [(h.unbound s).1] at hnone
      exact absurd hnone (by simp)
    · intro t _
      exact Or.inr (h.unbound t).2
    · exact hmem
    · intro t _ hidle _
      show Task.Resumable (k.tasks t).view
      unfold Task.Resumable
      rw [show (k.tasks t).view.context = .returnToUserMode from h.contexts t hidle]
      trivial
    · exact h.idle
  · refine ⟨h.current.1, h.current.2.1, h.current.2.2, (h.unbound _).2, ?_⟩
    rintro ⟨e, s, ht⟩
    exact absurd ht (by simp [Kernel.quietDesk])

/-- The condition on the operations of a run keeps them orderly. -/
structure Admits (env : Env) (N : Desk.Allows) (ok : Kernel → Move → Prop) : Prop where
  notices : N.notices → env.ndebug = true
  orderly : ∀ k A op, Shows k A → A.Inv N → ok k (.invoke op) → A.Orderly op
  kills : ∀ k t i, ok k (.invoke (.kill t i)) → N.deaths ∧ (env.ndebug = true → N.notices)

variable {ok : Kernel → Move → Prop}

/-- An operation that comes to its end ends as its postconditions say. -/
theorem CoreStep.of_wp {Q : Bool → Kernel → Prop} {E : Stop → Kernel → Prop}
    (hstep : CoreStep env c (.invoke op, answer) c') (hwp : wp op.serve env Q E c.kernel) :
    (∃ b, answer = some b ∧ Q b c'.kernel) ∨ answer = none ∧ E .switched c'.kernel := by
  cases hstep with
  | invoke _ _ hrun =>
    cases hout : op.serve env c.kernel with
    | ok b k' =>
      rw [hout] at hrun
      obtain ⟨rfl, rfl⟩ := Prod.mk.inj (Option.some.inj hrun)
      exact Or.inl ⟨b, rfl, wp_ok hwp hout⟩
    | stop s k' =>
      rw [hout] at hrun
      cases s with
      | switched =>
        obtain ⟨rfl, rfl⟩ := Prod.mk.inj (Option.some.inj hrun)
        exact Or.inr ⟨rfl, wp_stopped hwp hout⟩
      | _ => exact absurd hrun (by simp [Outcome.toCore])

/-- What an operation did. -/
theorem Disciplined.invoke (hok : Admits env N ok) (h : Disciplined N c)
    (hop : ok c.kernel (.invoke op)) (hstep : CoreStep env c (.invoke op, answer) c') :
    ∃ A A', Shows c.kernel A ∧ A.Inv N ∧ A.User ∧ Shows c'.kernel A' ∧
      A.Effect N.notices op answer A' ∧ A'.Inv N ∧
      c'.mode = (if answer = none then .kernel else .user) ∧ A'.Answered answer := by
  obtain ⟨A, hA, hI, hmode⟩ := h
  cases hstep with
  | invoke huser htarget hrun =>
    rw [huser] at hmode
    have ho := hok.orderly _ _ _ hA hI hop
    have htarget' : op.target ≠ some A.idle := hA.idle ▸ htarget
    have hkill : ∀ t i, op = .kill t i → N.deaths ∧ (env.ndebug = true → N.notices) := by
      rintro t i rfl
      exact hok.kills _ _ _ hop
    have hwp : EndsAs env op.serve c.kernel (A.Effect N.notices op) (Mishap env (A.Blame env op)) :=
      hA.wp_serve hI hA.proper hmode hok.notices hkill ho htarget'
    have hinv : ∀ A', A.Effect N.notices op answer A' → A'.Inv N ∧ A'.Answered answer :=
      fun A' he => he.inv hI hA.proper hmode ho htarget' fun t i heq => (hkill t i heq).1
    cases hout : op.serve env c.kernel with
    | ok b k' =>
      rw [hout] at hrun
      obtain ⟨rfl, rfl⟩ := Prod.mk.inj (Option.some.inj hrun)
      obtain ⟨A', hA', he⟩ := wp_ok hwp hout
      exact ⟨A, A', hA, hI, hmode, hA', he, (hinv A' he).1, rfl, (hinv A' he).2⟩
    | stop s k' =>
      rw [hout] at hrun
      rcases wp_stopped hwp hout with ⟨rfl, A', hA', he⟩ | ⟨hne, -⟩
      · obtain ⟨rfl, rfl⟩ := Prod.mk.inj (Option.some.inj hrun)
        exact ⟨A, A', hA, hI, hmode, hA', he, (hinv A' he).1, rfl, (hinv A' he).2⟩
      · cases s <;> first | exact absurd rfl hne | exact absurd hrun (by simp [Outcome.toCore])

/-- What the task that was switched in did. -/
theorem Disciplined.goOn (h : Disciplined N c) (hstep : CoreStep env c (.resume, answer) c') :
    ∃ A A', Shows c.kernel A ∧ A.Inv N ∧ A.SwitchedIn ∧ Shows c'.kernel A' ∧
      A.GoOnEffect answer A' ∧ A'.Inv N ∧
      c'.mode = (if answer = none then .kernel else .user) ∧ A'.Answered answer := by
  obtain ⟨A, hA, hI, hmode⟩ := h
  cases hstep with
  | resume hkernel hrun =>
    rw [hkernel] at hmode
    have hwp : EndsAs env c.kernel.goOn c.kernel A.GoOnEffect
        (fun s _ => s = .panic ∨ s = .diverged) := hA.wp_goOn hI hmode
    have hinv : ∀ A', A.GoOnEffect answer A' → A'.Inv N ∧ A'.Answered answer :=
      fun A' he => he.inv hI hA.proper hmode
    cases hout : c.kernel.goOn env c.kernel with
    | ok b k' =>
      rw [hout] at hrun
      obtain ⟨rfl, rfl⟩ := Prod.mk.inj (Option.some.inj hrun)
      obtain ⟨A', hA', he⟩ := wp_ok hwp hout
      exact ⟨A, A', hA, hI, hmode, hA', he, (hinv A' he).1, rfl, (hinv A' he).2⟩
    | stop s k' =>
      rw [hout] at hrun
      rcases wp_stopped hwp hout with ⟨rfl, A', hA', he⟩ | ⟨hne, -⟩
      · obtain ⟨rfl, rfl⟩ := Prod.mk.inj (Option.some.inj hrun)
        exact ⟨A, A', hA, hI, hmode, hA', he, (hinv A' he).1, rfl, (hinv A' he).2⟩
      · cases s <;> first | exact absurd rfl hne | exact absurd hrun (by simp [Outcome.toCore])

/-- What a step leaves, told by its answer. -/
theorem Disciplined.of_answered {A : Desk} (hA : Shows c.kernel A) (hI : A.Inv N)
    (hmode : c.mode = (if answer = none then .kernel else .user)) (hanswer : A.Answered answer) :
    Disciplined N c := by
  refine ⟨A, hA, hI, ?_⟩
  cases answer with
  | none =>
    rw [show c.mode = .kernel from hmode]
    exact hanswer
  | some b =>
    rw [show c.mode = .user from hmode]
    exact hanswer

/-- The step lemma. -/
theorem Disciplined.step (hok : Admits env N ok) (h : Disciplined N c) {act : Move × Option Bool}
    (hact : ok c.kernel act.1) (hstep : CoreStep env c act c') : Disciplined N c' := by
  obtain ⟨move, answer⟩ := act
  cases move with
  | invoke op =>
    obtain ⟨_, A', -, -, -, hA', -, hI', hmode, hanswer⟩ := h.invoke hok hact hstep
    exact .of_answered hA' hI' hmode hanswer
  | resume =>
    obtain ⟨_, A', -, -, -, hA', -, hI', hmode, hanswer⟩ := h.goOn hstep
    exact .of_answered hA' hI' hmode hanswer
  | store memory =>
    obtain ⟨A, hA, hI, hmode⟩ := h
    cases hstep with
    | store => exact ⟨A, hA.frame (.of_eq rfl rfl rfl rfl rfl rfl), hI, hmode⟩

/-- The run lemma: every state of a run is disciplined. -/
theorem Disciplined.run (hok : Admits env N ok) (h : Disciplined N c)
    {acts : List (Move × Option Bool)} (hrun : CoreRun env ok c acts c') : Disciplined N c' :=
  Steps.invariant (fun _ _ _ hc hs => hc.step hok hs.1 hs.2) hrun h

/-- The task is linked into no queue of an endpoint: it is in no list that a queue stands for. -/
def Kernel.InNoQueue (k : Kernel) (t : TaskPtr) : Prop :=
  ∀ e side l, Queue.Rep k.waitingLinks ((k.endpoints e).queue side) l → t ∉ l

/-- The queue that a state shows is the one it stands for. -/
theorem Shows.waiting_eq {k : Kernel} {A : Desk} (h : Shows k A) {e : EndpointPtr}
    {side : QueueSide} {l : List TaskPtr}
    (hl : Queue.Rep k.waitingLinks ((k.endpoints e).queue side) l) : l = A.waiting e side :=
  hl.unique (h.waiting e side)

theorem Shows.inNoQueue_iff {A : Desk} (h : Shows k A) {t : TaskPtr} :
    k.InNoQueue t ↔ ¬ A.Queued t := by
  constructor
  · rintro hout ⟨e, side, ht⟩
    exact hout e side _ (h.waiting e side) ht
  · intro hq e side l hl ht
    rw [h.waiting_eq hl] at ht
    exact hq ⟨e, side, ht⟩

/-- What keeps a run in order. No blocked task is suspended, and no task resumes itself. A task
that is killed while it sends or receives waits in a queue: its message has not failed there.
While its notice waits for a receiver, a task is not killed again, and the endpoint of the
notice is not given up. -/
def Kernel.Orderly (k : Kernel) : Move → Prop
  | .invoke (.suspend t) => (k.tasks t).state ≠ .waiting
  | .invoke (.resume t) => t ≠ k.currentTask
  | .invoke (.cancel e) => ∀ l, Queue.Rep k.waitingLinks (k.endpoints e).senderQueue l →
    ∀ t ∈ l, (k.tasks t).state ≠ .killed
  | .invoke (.kill t _) =>
    ((k.tasks t).state = .waiting → (k.tasks t).ipcState = .calling ∨ ¬ k.InNoQueue t) ∧
    ((k.tasks t).state = .killed → ∀ e, (k.tasks t).killNotify = some e →
      (k.endpoints e).receiverQueue.head = none → k.InNoQueue t)
  | _ => True

/-- In an orderly run tasks may die, and notices wait where the build lets them. -/
theorem Kernel.Orderly.admits : Admits env ⟨True, env.ndebug = true⟩ Kernel.Orderly where
  notices h := h
  orderly k A op h _ hop := by
    cases op with
    | suspend t =>
      rw [show A.Orderly (.suspend t) ↔ (A.tasks t).state ≠ .waiting from Iff.rfl, ← h.state]
      exact hop
    | resume t =>
      rw [show A.Orderly (.resume t) ↔ t ≠ A.current from Iff.rfl, ← h.current]
      exact hop
    | cancel e =>
      intro t ht
      rw [← h.state]
      exact hop _ (h.waiting e .sender) t ht
    | kill t i =>
      obtain ⟨hwaiting, hagain⟩ := hop
      constructor
      · rw [← h.state, ← h.ipcState]
        exact fun hstate => (hwaiting hstate).imp_right fun hin =>
          not_not.mp (h.inNoQueue_iff.not.mp hin)
      · rw [← h.state, ← h.killNotify]
        intro hstate e hnotify hempty
        refine h.inNoQueue_iff.mp (hagain hstate e hnotify ?_)
        show ((k.endpoints e).queue .receiver).head = none
        rw [h.head, hempty]
        rfl
    | _ => trivial
  kills _ _ _ _ := ⟨trivial, id⟩

end Caprese
