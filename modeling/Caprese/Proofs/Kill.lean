import Caprese.Proofs.Killed

/-!
# `Caprese.Proofs.Kill`: what a kill leaves behind

`kill_task` clears up after a task that sends, receives, waits for a reply or does not wait at
all. It fails twice (`kill_clears`): a caller that nobody has received has no callee, which
`kill_task` dereferences, and the caller that a dead task was to answer goes on waiting.
-/

set_option autoImplicit false

namespace Caprese

open Lib Prog

/-- What is to be left of a task that is killed. -/
structure NoTrace (k k' : Kernel) (t : TaskPtr) : Prop where
  dead : k'.Dead t
  queued : ∀ e side l, Queue.Rep k'.waitingLinks ((k'.endpoints e).queue side) l → t ∈ l →
    side = .sender ∧ (k'.tasks t).eventType = .kill ∧ (k'.tasks t).endpoint = some e
  unbound : ∀ s, (k'.tasks s).state ≠ .killed →
    (k'.tasks s).callerTask ≠ some t ∧ (k'.tasks s).calleeTask ≠ some t
  released : ∀ c, (k.tasks t).callerTask = some c →
    (k'.tasks c).state = .ready ∧ (k'.tasks c).ipcState = .canceled

/-- The task is not a caller that nobody has received, and has no call to answer. -/
def Clearable (k : Kernel) (t : TaskPtr) : Prop :=
  ¬ ((k.tasks t).state = .waiting ∧ (k.tasks t).ipcState = .calling ∧
    (k.tasks t).endpoint ≠ none ∧ (k.tasks t).calleeTask = none) ∧
  (k.tasks t).callerTask = none

namespace Desk

variable {N : Allows} {A B : Desk} {t c : TaskPtr} {i : Int} {answer : Option Bool}
  {notices : Prop}

theorem bury_callerTask (hnone : (A.tasks t).callerTask = none) :
    ((A.bury t i).tasks t).callerTask = none := by
  have hsame : ((A.unlink t).tasks t).callerTask = none := by
    unfold unlink withdraw
    grind
  unfold bury
  rw [mapTask_tasks, if_pos rfl]
  exact hsame

/-- A kill binds nobody to the task. -/
theorem BuriedEffect.callerTask (he : A.BuriedEffect notices t answer B) (hI : A.Inv N)
    (hnone : (A.tasks t).callerTask = none) : (B.tasks t).callerTask = none := by
  cases he with
  | other _ _ => exact hnone
  | self _ _ =>
    unfold resched leave
    grind
  | told _ first =>
    have hr := (hI.receivers _ _ first.mem).caller
    unfold resched leave wake
    grind [Task.received]
  | queued _ _ _ =>
    unfold resched leave
    grind

/-- Whoever is bound to a callee is not woken. -/
theorem BuriedEffect.not_ready (he : A.BuriedEffect notices t answer B) (hI : A.Inv N)
    (hc : (A.tasks c).calleeTask ≠ none) (hstate : (A.tasks c).state ≠ .ready) :
    (B.tasks c).state ≠ .ready := by
  cases he with
  | other _ _ => exact hstate
  | self _ _ =>
    unfold resched leave
    grind
  | told _ first =>
    have hr := (hI.receivers _ _ first.mem).callee
    unfold resched leave wake
    grind
  | queued _ _ _ =>
    unfold resched leave
    grind

end Desk

variable {env : Env} {c c' : Core} {t : TaskPtr} {i : Int} {answer : Option Bool}

/-- What a kill that comes to its end leaves of a task that can be cleared. -/
theorem Disciplined.kill_noTrace (h : Disciplined ⟨True, env.ndebug = true⟩ c)
    (hok : c.kernel.Orderly (.invoke (.kill t i))) (hclear : Clearable c.kernel t)
    (hstep : CoreStep env c (.invoke (.kill t i), answer) c') : NoTrace c.kernel c'.kernel t := by
  have hidle : t ≠ c.kernel.idleTask := by
    cases hstep with
    | invoke _ htarget _ => exact fun heq => htarget (heq ▸ rfl)
  have hnext := h.step Kernel.Orderly.admits hok hstep
  obtain ⟨A, B, hA, hI, hu, hB, ⟨hfound, he⟩, hIB, -, -⟩ := h.invoke Kernel.Orderly.admits hok hstep
  obtain ⟨hbury, -, -⟩ := hI.bury (i := i) trivial hA.proper (hA.idle ▸ hidle) hfound
  have hdead : (B.tasks t).state = .killed :=
    he.keepsDead hbury t (Desk.bury_tasks.1.trans (if_pos rfl))
  have hcaller : (B.tasks t).callerTask = none := by
    refine he.callerTask hbury (Desk.bury_callerTask ?_)
    rw [← hA.callerTask]
    exact hclear.2
  refine ⟨hnext.dead ((hB.state t).trans hdead), fun e side l hl ht => ?_, fun s hs => ?_, ?_⟩
  · rw [hB.waiting_eq hl] at ht
    cases side with
    | receiver =>
      have hstate := (hIB.receivers e t ht).state
      rw [hdead] at hstate
      exact absurd hstate (by decide)
    | sender =>
      rcases hIB.senders e t ht with hsends | ⟨-, hnotifies⟩
      · have hstate := hsends.state
        rw [hdead] at hstate
        exact absurd hstate (by decide)
      · rw [hB.eventType, hB.endpoint]
        exact ⟨rfl, hnotifies.eventType, hnotifies.endpoint⟩
  · rw [hB.state] at hs
    rw [hB.callerTask, hB.calleeTask]
    constructor
    · intro hs'
      exact (hIB.caller s t hs').2 hdead
    · intro hs'
      have hbound := (hIB.callee s t hs' hs).2
      rw [hcaller] at hbound
      exact absurd hbound (by simp)
  · intro c₁ hc₁
    rw [hclear.2] at hc₁
    exact absurd hc₁ (by simp)

/-- It dereferences no null pointer. -/
theorem Disciplined.kill_noNull (h : Disciplined ⟨True, env.ndebug = true⟩ c)
    (hidle : t ≠ c.kernel.idleTask) (hok : c.kernel.Orderly (.invoke (.kill t i)))
    (hclear : Clearable c.kernel t) (k' : Kernel) :
    (Op.kill t i).serve env c.kernel ≠ .stop .nullDeref k' := by
  intro hstop
  obtain ⟨A, hA, hI, hmode⟩ := h
  have ho := Kernel.Orderly.admits.orderly _ _ _ hA hI hok
  have hwp : EndsAs env (do killTask t i; return true) c.kernel (A.Effect (env.ndebug = true)
      (.kill t i)) (A.KillMishap env t) :=
    hA.wp_killTask hI hA.proper (hA.idle ▸ hidle) ho trivial id
  rcases wp_stopped hwp hstop with ⟨hs, -⟩ | ⟨-, ⟨hs, -⟩ | hblame⟩
  · exact absurd hs (by decide)
  · exact hs rfl
  · rcases hblame with ⟨hs, -⟩ | ⟨-, hs, -⟩ | ⟨-, hw, hipc, hendpoint, hcallee⟩
    · exact absurd hs (by decide)
    · exact absurd hs (by decide)
    · refine hclear.1 ⟨?_, ?_, ?_, ?_⟩
      · rw [hA.state, hw]
      · rw [hA.ipcState, hipc]
      · rw [hA.endpoint]
        exact hendpoint
      · rw [hA.calleeTask, hcallee]

/-- What cannot be cleared is not cleared. -/
theorem Disciplined.kill_trace (h : Disciplined ⟨True, env.ndebug = true⟩ c)
    (hok : c.kernel.Orderly (.invoke (.kill t i))) (hclear : ¬ Clearable c.kernel t)
    (hstep : CoreStep env c (.invoke (.kill t i), answer) c') :
    ¬ NoTrace c.kernel c'.kernel t := by
  intro hnone
  have hidle : t ≠ c.kernel.idleTask := by
    cases hstep with
    | invoke _ htarget _ => exact fun heq => htarget (heq ▸ rfl)
  obtain ⟨A, B, hA, hI, hu, hB, ⟨hfound, he⟩, -, -, -⟩ := h.invoke Kernel.Orderly.admits hok hstep
  obtain ⟨hbury, -, -⟩ := hI.bury (i := i) trivial hA.proper (hA.idle ▸ hidle) hfound
  by_cases hcaller : ∃ s, (c.kernel.tasks t).callerTask = some s
  · -- The caller of the dead task still waits for it.
    obtain ⟨s, hs⟩ := hcaller
    have hready := (hnone.released s hs).1
    rw [hA.callerTask] at hs
    obtain ⟨hcalls, hcallee⟩ := hI.caller_waits hs
    have hkeep := Desk.bury_tasks (A := A) (t := t) (i := i) (u := s)
    refine he.not_ready hbury ?_ ?_ ((hB.state s).symm.trans hready)
    · rw [hkeep.2.1, hcallee]
      simp
    · rw [hkeep.1, hcalls.state]
      split <;> decide
  · -- The caller that nobody has received has no callee that could be found.
    refine hclear ⟨?_, Option.eq_none_iff_forall_ne_some.mpr fun s hs => hcaller ⟨s, hs⟩⟩
    rintro ⟨hw, hipc, hendpoint, hcallee⟩
    rw [hA.state] at hw
    rw [hA.ipcState] at hipc
    rw [hA.endpoint] at hendpoint
    rw [hA.calleeTask] at hcallee
    obtain ⟨e, he'⟩ := Option.ne_none_iff_exists'.mp hendpoint
    rcases hfound hw e he' with ⟨hne, -⟩ | ⟨s, hs⟩
    · exact hne hipc
    · rw [(hI.caller_waits hs).2] at hcallee
      exact absurd hcallee (by simp)

end Caprese
