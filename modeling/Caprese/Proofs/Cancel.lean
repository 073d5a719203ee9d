import Caprese.Proofs.Killed

/-!
# `Caprese.Proofs.Cancel`: who goes on waiting when an endpoint is given up

`ipc_cancel` wakes the tasks in the two queues of an endpoint and no other one. A caller that
was received is in neither, so it is left waiting for an endpoint that is gone
(`cancel_complete_iff`).
-/

set_option autoImplicit false

namespace Caprese

open Lib Prog

namespace Desk

variable {N : Allows} {A B D : Desk} {t : TaskPtr} {e : EndpointPtr} {side : QueueSide}

/-- A loop of `ipc_cancel` that has come from `A` to `B`: who has left the queue is canceled, and
nothing else is stored. -/
structure CancelsFrom (e : EndpointPtr) (side : QueueSide) (A B : Desk) : Prop where
  sub : ∀ t, t ∈ B.waiting e side → t ∈ A.waiting e side
  done : ∀ t, t ∈ A.waiting e side → t ∉ B.waiting e side →
    B.tasks t = (A.tasks t).canceled side
  left : ∀ t, t ∉ A.waiting e side ∨ t ∈ B.waiting e side → B.tasks t = A.tasks t
  others : ∀ e' side', (e' ≠ e ∨ side' ≠ side) → B.waiting e' side' = A.waiting e' side'

theorem CancelsFrom.refl : CancelsFrom e side A A :=
  ⟨fun _ => id, fun _ ht hn => absurd ht hn, fun _ _ => rfl, fun _ _ _ => rfl⟩

/-- One turn more. -/
theorem CancelsFrom.turn (h : CancelsFrom e side A B) (hp : B.Proper)
    (hturn : CancelTurn e side B D) : CancelsFrom e side A D := by
  obtain ⟨r, first, rfl⟩ := hturn
  have hr := first.mem
  have hmem : ∀ t, t ∈ ((B.dequeue r e side).wake r fun task => task.canceled side).waiting e side ↔
      t ∈ B.waiting e side ∧ t ≠ r := by
    intro t
    have hm : t ∈ (B.dequeue r e side).waiting e side ↔
        t ∈ B.waiting e side ∧ ¬ (e = e ∧ side = side ∧ t = r) := mem_dequeue hp
    constructor
    · intro ht
      exact ⟨(hm.mp ht).1, fun heq => (hm.mp ht).2 ⟨rfl, rfl, heq⟩⟩
    · rintro ⟨ht, hne⟩
      exact hm.mpr ⟨ht, fun hc => hne hc.2.2⟩
  refine ⟨fun t ht => h.sub t ((hmem t).mp ht).1, fun t ht hn => ?_, fun t ht => ?_,
    fun e' side' hne => ?_⟩
  · rw [wake_tasks, dequeue_tasks]
    split
    · rename_i heq
      rw [h.left r (Or.inr hr), heq]
    · rename_i hne
      exact h.done t ht fun htB => hn ((hmem t).mpr ⟨htB, hne⟩)
  · have hne : t ≠ r := by
      rintro rfl
      rcases ht with ht | ht
      · exact ht (h.sub _ hr)
      · exact ((hmem _).mp ht).2 rfl
    rw [wake_tasks, if_neg hne]
    exact h.left t (ht.imp_right fun ht' => ((hmem t).mp ht').1)
  · rw [← h.others e' side' hne]
    show (B.dequeue r e side).waiting e' side' = _
    unfold dequeue
    rw [setWaiting_waiting, if_neg]
    rintro ⟨rfl, rfl⟩
    rcases hne with hne | hne
    · exact hne rfl
    · exact hne rfl

theorem CancelLoop.cancelsFrom (hI : A.Inv N) (hp : A.Proper) (hu : A.User) (halive : A.Alive e)
    (hl : CancelLoop e side A B) : CancelsFrom e side A B ∧ B.waiting e side = [] := by
  obtain ⟨hrun, hempty⟩ := hl
  refine ⟨?_, hempty⟩
  clear hempty
  have hall : CancelsFrom e side A B ∧ B.Inv N ∧ B.Proper ∧ B.User ∧ B.Alive e := by
    induction hrun with
    | refl => exact ⟨.refl, hI, hp, hu, halive⟩
    | tail _ hturn ih =>
      obtain ⟨hfrom, hI', hp', hu', halive'⟩ := ih
      exact ⟨hfrom.turn hp' hturn, hturn.inv hI' hp' hu' halive'⟩
  exact hall.1

/-- `ipc_cancel` wakes who waits in the queues of the endpoint, and stores to nobody else. -/
theorem CancelEffect.tasks (hI : A.Inv N) (hp : A.Proper) (hu : A.User) (halive : A.Alive e)
    (he : A.CancelEffect e B) :
    (∀ side t, t ∈ A.waiting e side → B.tasks t = (A.tasks t).canceled side) ∧
      ∀ t, (∀ side, t ∉ A.waiting e side) → B.tasks t = A.tasks t := by
  obtain ⟨D, hloop, hloop'⟩ := he
  obtain ⟨hID, hpD, huD, haliveD⟩ := hloop.inv hI hp hu halive
  obtain ⟨hfrom, hempty⟩ := hloop.cancelsFrom hI hp hu halive
  obtain ⟨hfrom', hempty'⟩ := hloop'.cancelsFrom hID hpD huD haliveD
  have hsenders : D.waiting e .sender = A.waiting e .sender :=
    hfrom.others e .sender (Or.inr (by decide))
  have hnone : ∀ {l : List TaskPtr} {t : TaskPtr}, l = [] → t ∉ l := by
    rintro l t rfl
    exact List.not_mem_nil
  constructor
  · intro side t ht
    cases side with
    | receiver =>
      have hout : t ∉ D.waiting e .sender := by
        intro ht'
        rw [hsenders] at ht'
        exact absurd (hp.one _ _ _ _ t ht ht').2 (by decide)
      rw [hfrom'.left t (Or.inl hout), hfrom.done t ht (hnone hempty)]
    | sender =>
      have hout : t ∉ A.waiting e .receiver := by
        intro ht'
        exact absurd (hp.one _ _ _ _ t ht ht').2 (by decide)
      rw [hfrom'.done t (hsenders ▸ ht) (hnone hempty'), hfrom.left t (Or.inl hout)]
  · intro t ht
    rw [hfrom'.left t (Or.inl (hsenders ▸ ht .sender)), hfrom.left t (Or.inl (ht .receiver))]

end Desk

/-- The task is in a queue of the endpoint, or waits for an answer through it. -/
def Kernel.WaitsAt (k : Kernel) (e : EndpointPtr) (t : TaskPtr) : Prop :=
  (∃ side l, Queue.Rep k.waitingLinks ((k.endpoints e).queue side) l ∧ t ∈ l) ∨
    (k.tasks t).state = .waiting ∧ (k.tasks t).endpoint = some e

/-- Nobody is left waiting for the endpoint. -/
structure Canceled (k k' : Kernel) (e : EndpointPtr) : Prop where
  nobody : ∀ t, (k'.tasks t).state = .waiting → (k'.tasks t).endpoint ≠ some e
  woken : ∀ t, k.WaitsAt e t → (k'.tasks t).state = .ready ∧ (k'.tasks t).ipcState = .canceled ∧
    (k'.tasks t).endpoint = none

theorem Task.canceled_fields (task : Task) (side : QueueSide) :
    (task.canceled side).state = .ready ∧ (task.canceled side).ipcState = .canceled ∧
      (task.canceled side).endpoint = none := by
  cases side <;> exact ⟨rfl, rfl, rfl⟩

/-- In every state of an orderly run, a cancellation that comes to its end leaves nobody waiting
exactly where everybody who waits for the endpoint waits in a queue. -/
theorem cancel_complete_iff {env : Env} {k : Kernel} {acts : List (Move × Option Bool)}
    {c c' : Core} {e : EndpointPtr} {answer : Option Bool} (hquiet : Quiet k)
    (hrun : CoreRun env Kernel.Orderly ⟨k, .user⟩ acts c)
    (hok : c.kernel.Orderly (.invoke (.cancel e)))
    (hstep : CoreStep env c (.invoke (.cancel e), answer) c') :
    Canceled c.kernel c'.kernel e ↔
      ∀ t, (c.kernel.tasks t).state = .waiting → (c.kernel.tasks t).endpoint = some e →
        ¬ c.kernel.InNoQueue t := by
  have hc := hquiet.disciplined.run Kernel.Orderly.admits hrun
  obtain ⟨A, B, hA, hI, hu, hB, ⟨-, he⟩, -, -, -⟩ := hc.invoke Kernel.Orderly.admits hok hstep
  have ho := Kernel.Orderly.admits.orderly _ _ _ hA hI hok
  obtain ⟨hin, hout⟩ := he.tasks hI hA.proper hu ho
  have hkeep : ∀ t, c.kernel.InNoQueue t → B.tasks t = A.tasks t := by
    intro t ht
    exact hout t fun side hmem => hA.inNoQueue_iff.mp ht ⟨e, side, hmem⟩
  constructor
  · intro hall t hstate hendpoint hnone
    have hsame := hkeep t hnone
    refine hall.nobody t ?_ ?_
    · rw [hB.state, hsame, ← hA.state]
      exact hstate
    · rw [hB.endpoint, hsame, ← hA.endpoint]
      exact hendpoint
  · intro hall
    -- Whoever waits for the endpoint waits in one of its queues.
    have hwoken : ∀ t, (c.kernel.tasks t).state = .waiting →
        (c.kernel.tasks t).endpoint = some e →
        ∃ side, B.tasks t = (A.tasks t).canceled side := by
      intro t hstate hendpoint
      obtain ⟨e', side, hmem⟩ := not_not.mp (hA.inNoQueue_iff.not.mp (hall t hstate hendpoint))
      rw [hA.state] at hstate
      rw [hA.endpoint] at hendpoint
      have he' : (A.tasks t).endpoint = some e' := by
        cases side with
        | receiver => exact (hI.receivers e' t hmem).endpoint
        | sender => exact (hI.sends hmem (by rw [hstate]; decide)).endpoint
      obtain rfl : e' = e := Option.some.inj (he'.symm.trans hendpoint)
      exact ⟨side, hin side t hmem⟩
    constructor
    · intro t hstate hendpoint
      rw [hB.state] at hstate
      rw [hB.endpoint] at hendpoint
      by_cases hmem : ∃ side, t ∈ A.waiting e side
      · obtain ⟨side, hmem⟩ := hmem
        rw [hin side t hmem, ((A.tasks t).canceled_fields side).1] at hstate
        exact absurd hstate (by decide)
      · have hsame := hout t fun side ht => hmem ⟨side, ht⟩
        rw [hsame] at hstate hendpoint
        obtain ⟨side, hwake⟩ := hwoken t ((hA.state t).trans hstate)
          ((hA.endpoint t).trans hendpoint)
        rw [hsame] at hwake
        rw [hwake, ((A.tasks t).canceled_fields side).1] at hstate
        exact absurd hstate (by decide)
    · intro t ht
      have hwake : ∃ side, B.tasks t = (A.tasks t).canceled side := by
        rcases ht with ⟨side, l, hl, hmem⟩ | ⟨hstate, hendpoint⟩
        · exact ⟨side, hin side t (hA.waiting_eq hl ▸ hmem)⟩
        · exact hwoken t hstate hendpoint
      obtain ⟨side, hwake⟩ := hwake
      rw [hB.state, hB.ipcState, hB.endpoint, hwake]
      exact (A.tasks t).canceled_fields side

/-- The second task gives up the endpoint at which the first one waits for a message. -/
theorem cancel_complete_iff_receiver : ∃ acts c answer c',
    CoreRun (.debug smallConfig) Kernel.Orderly ⟨smallKernel, .user⟩ acts c ∧
    CoreStep (.debug smallConfig) c (.invoke (.cancel 0x100), answer) c' ∧
    (Canceled c.kernel c'.kernel 0x100 ↔
      ∀ t, (c.kernel.tasks t).state = .waiting → (c.kernel.tasks t).endpoint = some 0x100 →
        ¬ c.kernel.InNoQueue t) := by
  obtain ⟨acts, c, hrun, hempty, hcancel⟩ := small_run (.debug smallConfig) Calm
    (fun _ => trivial) [some (.receive true 0x100 0), none, none]
    (P := fun c => (c.kernel.endpoints 0x100).senderQueue = ⟨none, none⟩ ∧
      (c.invoke (.debug smallConfig) (.cancel 0x100)).isSome = true) (by decide +kernel)
  obtain ⟨⟨answer, c'⟩, hnext⟩ := Option.isSome_iff_exists.mp hcancel
  have hok : c.kernel.Orderly (.invoke (.cancel 0x100)) := by
    intro l hl t ht
    rw [hempty] at hl
    rw [hl.unique Queue.Rep.empty] at ht
    exact absurd ht List.not_mem_nil
  exact ⟨acts, c, answer, c', Calm.run hrun, step_of_invoke hnext,
    cancel_complete_iff smallKernel_quiet (Calm.run hrun) hok (step_of_invoke hnext)⟩

/-- The third task gives up the endpoint through which the second one has called the first. -/
theorem cancel_strands_caller : ¬ ∀ (env : Env) (k : Kernel)
    (acts : List (Move × Option Bool)) (c c' : Core) (e : EndpointPtr) (answer : Option Bool),
    Quiet k → CoreRun env (fun _ _ => True) ⟨k, .user⟩ acts c →
    CoreStep env c (.invoke (.cancel e), answer) c' → Canceled c.kernel c'.kernel e := by
  intro hclaim
  obtain ⟨acts, c, hrun, hcancel⟩ := small_run (.debug smallConfig) Calm
    (fun _ => trivial)
    [some (.receive true 0x100 0), none, none, some (.call 0x100 0), none, none]
    (P := fun c => ((c.invoke (.debug smallConfig) (.cancel 0x100)).any fun next =>
      decide ((next.2.kernel.tasks 0x2000).state = .waiting ∧
        (next.2.kernel.tasks 0x2000).endpoint = some 0x100)) = true) (by decide +kernel)
  rw [Option.any_eq_true] at hcancel
  obtain ⟨⟨answer, c'⟩, hnext, hwaits⟩ := hcancel
  obtain ⟨hstate, hendpoint⟩ := of_decide_eq_true hwaits
  have hall := hclaim (.debug smallConfig) _ _ _ _ 0x100 _ smallKernel_quiet
    (hrun.mono fun _ _ _ hs => ⟨trivial, hs.2⟩) (step_of_invoke hnext)
  exact hall.nobody 0x2000 hstate hendpoint

end Caprese
