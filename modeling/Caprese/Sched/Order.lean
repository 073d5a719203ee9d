import Caprese.Lib.Fifo
import Caprese.Sched.Ground

/-!
# `Caprese.Sched.Order`: first come, first served

No operation lets a task into a queue but at its end (`Desk.Fair`): whoever becomes ready is behind
those that are ready already, and whoever comes to an endpoint is behind those that wait there.
-/

set_option autoImplicit false

namespace Caprese

open Lib Prog

namespace Desk

/-- The queues of `B` come from those of `A` by leaving, and by joining at the end. -/
structure Fair (A B : Desk) : Prop where
  ready : Fifo A.ready B.ready
  waiting : ∀ e side, Fifo (A.waiting e side) (B.waiting e side)

variable {A B : Desk} {t r c : TaskPtr} {e : EndpointPtr} {side : QueueSide} {f g : Task → Task}
  {answer : Option Bool} {resume : Resume}

namespace Fair

theorem refl (A : Desk) : Fair A A := ⟨.refl _, fun _ _ => .refl _⟩

variable (h : Fair A B)
include h

/-- A step that stores to no queue. -/
theorem keep {C : Desk} (hready : C.ready = B.ready) (hwaiting : C.waiting = B.waiting) :
    Fair A C := ⟨hready ▸ h.ready, fun e side => hwaiting ▸ h.waiting e side⟩

theorem mapTask (t : TaskPtr) (f : Task → Task) : Fair A (B.mapTask t f) := h.keep rfl rfl

theorem resched (resume : Resume) : Fair A (B.resched resume) := h.keep rfl rfl

theorem deliver (dst src : TaskPtr) : Fair A (B.deliver dst src) := h.keep rfl rfl

theorem passed (sent : Bool) (dst src : TaskPtr) : Fair A (B.passed sent dst src) := by
  unfold Desk.passed
  split
  · exact h.deliver dst src
  · exact h

theorem pushReady (ht : t ∉ A.ready) : Fair A (B.pushReady t) := ⟨h.ready.push ht, h.waiting⟩

theorem dropReady (t : TaskPtr) : Fair A (B.dropReady t) := ⟨h.ready.erase t, h.waiting⟩

theorem setWaiting {l : List TaskPtr} (hl : Fifo (A.waiting e side) l) :
    Fair A (B.setWaiting e side l) := by
  refine ⟨h.ready, fun e' side' => ?_⟩
  rw [setWaiting_waiting]
  split
  · rename_i heq
    rw [heq.1, heq.2]
    exact hl
  · exact h.waiting e' side'

theorem dequeue (t : TaskPtr) (e : EndpointPtr) (side : QueueSide) : Fair A (B.dequeue t e side) :=
  h.setWaiting ((h.waiting e side).erase t)

theorem enqueue (ht : t ∉ A.waiting e side) : Fair A (B.enqueue t e side) :=
  h.setWaiting ((h.waiting e side).push ht)

theorem wake (ht : t ∉ A.ready) (f : Task → Task) : Fair A (B.wake t f) :=
  (h.mapTask t f).pushReady ht

theorem handOver (hcur : B.current ∉ A.ready) (t : TaskPtr) : Fair A (B.handOver t) := by
  have hrun : Fair A (((B.mapTask t fun task => { task with state := .running }).run t).mapTask
      B.current fun task => { task with state := .ready, context := .switchTask }) := h.keep rfl rfl
  exact hrun.pushReady hcur

end Fair

/-! ### Who is not ready -/

section NotReady

variable {N : Allows} (hI : A.Inv N)
include hI

theorem Inv.not_mem_ready (ht : (A.tasks t).state ≠ .ready) : t ∉ A.ready := fun hmem =>
  ht ((hI.ready t).mp hmem).1

theorem Inv.queued_not_ready (ht : A.Queued t) : t ∉ A.ready := by
  refine hI.not_mem_ready ?_
  obtain ⟨e, side, hmem⟩ := ht
  cases side with
  | receiver =>
    rw [(hI.receivers e t hmem).state]
    decide
  | sender =>
    rcases hI.senders e t hmem with hsends | ⟨-, hnotifies⟩
    · rw [hsends.state]
      decide
    · rw [hnotifies.state]
      decide

theorem Inv.caller_not_ready (hc : (A.tasks t).callerTask = some c) : c ∉ A.ready := by
  refine hI.not_mem_ready ?_
  rw [(hI.caller_waits hc).1.state]
  decide

end NotReady

/-! ### The operations are fair -/

section Effects

variable (hI : A.Inv debugAllows) (hu : A.User)
include hI hu

theorem User.fair_current : A.current ∉ A.ready := hI.not_mem_ready hu.notReady

theorem SendEffect.fair {loose : Prop} {b : Bool}
    (h : (A.stores f).SendEffect loose b e answer B) : Fair A B := by
  have hA : Fair A (A.stores f) := (Fair.refl A).mapTask _ _
  cases h with
  | @meet r sent _ _ =>
    refine (((hA.passed _ _ _).dequeue _ _ _).mapTask _ _).handOver ?_ _
    have hcur : ((((A.stores f).passed sent r (A.stores f).current).dequeue r e .receiver).mapTask r
        Task.received).current = A.current := by cases sent <;> rfl
    rw [hcur]
    exact hu.fair_current hI
  | fail _ => exact hA
  | block _ _ =>
    exact ((hA.mapTask _ _).enqueue fun hmem => hu.notQueued ⟨e, .sender, hmem⟩).resched _
  | refuse _ _ => exact hA

omit hI hu in
/-- Giving up a caller makes it ready. -/
theorem abandon_fair (h : Fair A B) (hcur : B.current = A.current)
    (hc : ∀ c, (B.tasks B.current).callerTask = some c → c ∉ A.ready) :
    Fair A B.abandon ∧ B.abandon.current = A.current := by
  unfold abandon
  split
  · exact ⟨h, hcur⟩
  · rename_i c hcaller
    exact ⟨((h.mapTask _ _).mapTask _ _).pushReady (hc c hcaller), hcur⟩

omit hI in
theorem ReceiveEffect.fair {C : Desk} {b : Bool} (hC : Fair A C) (hcur : C.current = A.current)
    (hready : A.current ∉ A.ready) (h : C.ReceiveEffect b e answer B) : Fair A B := by
  cases h with
  | fail _ => exact hC.dequeue _ _ _
  | bind _ _ _ => exact (((hC.deliver _ _).dequeue _ _ _).mapTask _ _).mapTask _ _
  | take _ _ _ =>
    exact (((hC.deliver _ _).dequeue _ _ _).mapTask _ _).handOver (hcur ▸ hready) _
  | notice _ _ _ => exact (hC.dequeue _ _ _).mapTask _ _
  | block _ _ =>
    refine ((hC.mapTask _ _).enqueue ?_).resched _
    exact hcur ▸ fun hmem => hu.notQueued ⟨e, .receiver, hmem⟩
  | refuse _ _ => exact hC

omit hu in
theorem ReplyEffect.fair {msg : Nat} (h : A.ReplyEffect msg answer B) : Fair A B := by
  have hA : Fair A (A.stores (Task.longMsg msg)) := (Fair.refl A).mapTask _ _
  cases h with
  | none _ => exact .refl A
  | fail _ => exact hA
  | done hcaller =>
    exact (((hA.deliver _ _).mapTask _ _).mapTask _ _).pushReady (hI.caller_not_ready hcaller)

omit hI hu in
/-- Behind an answer nobody waits for one. -/
theorem ReplyEffect.answered {msg : Nat} (h : A.ReplyEffect msg (some true) B) :
    (B.tasks B.current).callerTask = Option.none ∧ B.current = A.current := by
  cases h with
  | none hcaller => exact ⟨hcaller, rfl⟩
  | done _ =>
    refine ⟨?_, rfl⟩
    simp only [pushReady_tasks, pushReady_current, mapTask_current, mapTask_tasks, stores,
      deliver_current, if_true]

theorem CallEffect.fair (h : (A.stores f).CallEffect e answer B) : Fair A B := by
  have hA : Fair A (A.stores f) := (Fair.refl A).mapTask _ _
  cases h with
  | fail => exact hA
  | @bind r hfirst =>
    have hr : r ∉ A.ready := hI.queued_not_ready ⟨e, .receiver, List.mem_of_mem_head? hfirst⟩
    exact (((((hA.deliver _ _).dequeue _ _ _).mapTask _ _).mapTask _ _).pushReady hr).resched _
  | block _ => exact (hA.enqueue fun hmem => hu.notQueued ⟨e, .sender, hmem⟩).resched _

omit hu in
/-- The loops of `ipc_cancel` only take tasks out of the queues of endpoints. -/
theorem CancelEffect.fair (h : A.CancelEffect e B) : Fair A B := by
  have hloop : ∀ {side : QueueSide} {D D' : Desk}, D.CancelLoop e side D' →
      (Fair A D ∧ ∀ e s, D.waiting e s ⊆ A.waiting e s) →
      Fair A D' ∧ ∀ e s, D'.waiting e s ⊆ A.waiting e s := by
    rintro side D D' ⟨hturns, -⟩ hD
    induction hturns with
    | refl => exact hD
    | tail _ hturn ih =>
      obtain ⟨hfair, hsub⟩ := ih
      obtain ⟨t, hfirst, rfl⟩ := hturn
      have ht : t ∉ A.ready :=
        hI.queued_not_ready ⟨e, side, hsub e side (List.mem_of_mem_head? hfirst)⟩
      refine ⟨(hfair.dequeue _ _ _).wake ht _, fun e' s' u hu => hsub e' s' ?_⟩
      change u ∈ (Desk.dequeue _ t e side).waiting e' s' at hu
      unfold Desk.dequeue at hu
      rw [setWaiting_waiting] at hu
      split at hu
      · rename_i heq
        rw [heq.1, heq.2]
        exact List.mem_of_mem_erase hu
      · exact hu
  obtain ⟨D, hreceivers, hsenders⟩ := h
  exact (hloop hsenders (hloop hreceivers ⟨.refl A, fun _ _ => List.Subset.refl _⟩)).1

omit hI hu in
/-- A task that dies leaves its queue. -/
theorem bury_fair (i : Int) : Fair A (A.bury t i) ∧
    ∀ e s, (A.bury t i).waiting e s ⊆ A.waiting e s := by
  have hA : Fair A A ∧ ∀ e s, A.waiting e s ⊆ A.waiting e s :=
    ⟨.refl A, fun _ _ => List.Subset.refl _⟩
  have hdequeue : ∀ e side, Fair A (A.dequeue t e side) ∧
      ∀ e' s, (A.dequeue t e side).waiting e' s ⊆ A.waiting e' s := by
    intro e side
    refine ⟨hA.1.dequeue _ _ _, fun e' s u hu => ?_⟩
    unfold Desk.dequeue at hu
    rw [setWaiting_waiting] at hu
    split at hu
    · rename_i heq
      rw [heq.1, heq.2]
      exact List.mem_of_mem_erase hu
    · exact hu
  have hunlink : Fair A (A.unlink t) ∧ ∀ e s, (A.unlink t).waiting e s ⊆ A.waiting e s := by
    unfold unlink withdraw
    split
    · exact ⟨hA.1.dropReady t, hA.2⟩
    · split
      · split
        · exact hdequeue _ _
        · exact hdequeue _ _
        · split
          · exact ⟨hA.1.mapTask _ _, hA.2⟩
          · exact hA
      · exact hA
    · exact hA
  exact ⟨hunlink.1.mapTask _ _, hunlink.2⟩

omit hu in
theorem kill_fair {i : Int} (h : (A.bury t i).BuriedEffect debugAllows.notices t answer B) :
    Fair A B := by
  obtain ⟨hfair, hsub⟩ := bury_fair (A := A) (t := t) i
  cases h with
  | other _ _ => exact hfair
  | self _ _ => exact hfair.resched _
  | @told e r _ hfirst =>
    have hr : r ∉ A.ready :=
      hI.queued_not_ready ⟨e, .receiver, hsub e .receiver (List.mem_of_mem_head? hfirst)⟩
    exact ((hfair.dequeue _ _ _).wake hr _).resched _
  | queued _ _ allowed => exact allowed.elim

/-- Every operation of the current task is fair. -/
theorem Effect.fair {op : Op} (h : A.Effect debugAllows.notices op answer B) : Fair A B := by
  have hcurrent := hu.fair_current hI
  have hstores : ∀ f, Fair A (A.stores f) := fun f => (Fair.refl A).mapTask _ _
  cases op with
  | sendShort b e args => exact SendEffect.fair hI hu h
  | sendLong b e msg => exact SendEffect.fair hI hu h
  | receive b e msg =>
    obtain ⟨hfair, hcur⟩ := abandon_fair (hstores (Task.longMsg msg)) rfl fun c hc => by
      refine hI.caller_not_ready (t := A.current) (c := c) ?_
      simpa [stores, Task.longMsg, Task.setIpcLongMsg] using hc
    exact ReceiveEffect.fair hu hfair hcur hcurrent h
  | call e msg => exact CallEffect.fair hI hu h
  | reply e msg => exact ReplyEffect.fair hI h
  | replyAndReceive e msg =>
    rcases h with ⟨hreply, -⟩ | ⟨D, hreply, hreceive⟩
    · exact hreply.fair hI
    · obtain ⟨hcaller, hD⟩ := hreply.answered
      have hfair : Fair A (D.stores (Task.longMsg msg)) := (hreply.fair hI).mapTask _ _
      obtain ⟨hfair', hcur⟩ := abandon_fair hfair hD fun c hc => by
        have hsome : (D.tasks D.current).callerTask = some c := by
          simpa [stores, Task.longMsg, Task.setIpcLongMsg] using hc
        rw [hcaller] at hsome
        exact absurd hsome (by simp)
      exact ReceiveEffect.fair hu hfair' hcur hcurrent hreceive
  | cancel e => exact h.2.fair hI
  | yield =>
    obtain ⟨-, rfl⟩ := h
    exact ((Fair.refl A).wake hcurrent _).resched _
  | switchTo t =>
    cases h with
    | switch _ => exact ((Fair.refl A).dropReady t).handOver hcurrent t
    | refuse _ => exact .refl A
  | suspend t =>
    cases h with
    | self _ _ => exact ((Fair.refl A).mapTask _ _).resched _
    | plain _ => exact (Fair.refl A).mapTask _ _
    | ready _ => exact ((Fair.refl A).dropReady t).mapTask _ _
    | skip _ => exact .refl A
  | resume t =>
    cases h with
    | wake hstate =>
      refine (Fair.refl A).wake (hI.not_mem_ready ?_) _
      rw [hstate]
      decide
    | skip _ => exact .refl A
  | kill t i => exact kill_fair hI h.2
  | setKillNotify t e =>
    cases h with
    | set _ => exact (Fair.refl A).mapTask _ _
    | skip _ => exact .refl A

omit hI hu in
/-- So is what the task that was switched in goes on with. -/
theorem GoOnEffect.fair (h : A.GoOnEffect answer B) : Fair A B := by
  cases h with
  | @dispatch t _ _ => exact ((Fair.refl A).dropReady t).keep rfl rfl
  | send _ => exact .refl A
  | plain _ => exact .refl A
  | buried _ => exact (Fair.refl A).resched _

end Effects

end Desk

end Caprese
