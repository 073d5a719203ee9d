import Caprese.Proofs.Rendezvous

/-!
# `Caprese.Proofs.Killed`: the dead stay dead

A killed task keeps its state along an orderly run, stays out of the ready queue and never gets
the processor (`killed_absorbing`). It is `ipc_cancel` that breaks this: it wakes what it finds
in the queue of senders, and a dead task waits there for a receiver of its notice.
-/

set_option autoImplicit false

namespace Caprese

open Lib Prog

namespace Desk

/-- What is dead in the first desk is dead in the second one. -/
def KeepsDead (A B : Desk) : Prop := ∀ t, (A.tasks t).state = .killed → (B.tasks t).state = .killed

section KeepsDead

variable {N : Allows} {A B D : Desk} {t r : TaskPtr} {e : EndpointPtr} {side : QueueSide}
  {f : Task → Task} {answer : Option Bool}

theorem KeepsDead.trans (h₁ : A.KeepsDead B) (h₂ : B.KeepsDead D) : A.KeepsDead D :=
  fun t ht => h₂ t (h₁ t ht)

/-- The dead are not among those that a step of the message passing stores to. -/
theorem Inv.receiver_alive (h : A.Inv N) (hr : r ∈ A.waiting e .receiver) :
    (A.tasks r).state ≠ .killed := by
  rw [(h.receivers e r hr).state]
  decide

theorem Inv.caller_alive (h : A.Inv N) (hr : (A.tasks t).callerTask = some r) :
    (A.tasks r).state ≠ .killed := (h.caller t r hr).2

theorem sends_alive (h : (A.tasks r).Sends e) : (A.tasks r).state ≠ .killed := by
  rw [h.state]
  decide

theorem SendEffect.keepsDead {loose : Prop} {blocking : Bool} (hI : A.Inv N) (hu : A.User)
    (he : A.SendEffect loose blocking e answer B) : A.KeepsDead B := by
  have halive := hu.alive
  intro t ht
  cases he with
  | @meet r sent first _ =>
    have hr := hI.receiver_alive first.mem
    -- Only the sender and the first receiver change, and the receiver was waiting, so not dead.
    unfold handOver swap passed
    grind
  | fail _ => exact ht
  | block _ _ =>
    -- Only the sender changes, and it was running.
    unfold stores resched leave
    grind
  | refuse _ _ => exact ht

theorem ReceiveEffect.keepsDead {blocking : Bool} (hu : A.User)
    (he : A.ReceiveEffect blocking e answer B) : A.KeepsDead B := by
  have halive := hu.alive
  intro t ht
  cases he with
  | fail _ => exact ht
  | bind _ sends _ =>
    -- The sender that is bound was waiting with a message.
    have hs := sends_alive sends
    grind
  | take _ sends _ =>
    have hs := sends_alive sends
    unfold handOver swap
    grind
  | notice _ _ _ =>
    unfold stores
    grind
  | block _ _ =>
    unfold stores resched leave
    grind
  | refuse _ _ => exact ht

theorem ReplyEffect.keepsDead {msg : Nat} (hI : A.Inv N) (hu : A.User)
    (he : A.ReplyEffect msg answer B) : A.KeepsDead B := by
  have halive := hu.alive
  intro t ht
  cases he with
  | none _ => exact ht
  | fail _ =>
    unfold stores
    grind
  | done hc =>
    have hcaller := hI.caller_alive hc
    unfold stores
    grind

theorem CallEffect.keepsDead (hI : A.Inv N) (hu : A.User) (he : A.CallEffect e answer B) :
    A.KeepsDead B := by
  have halive := hu.alive
  intro t ht
  cases he with
  | fail => exact ht
  | bind first =>
    have hr := hI.receiver_alive first.mem
    unfold resched leave
    grind
  | block _ =>
    unfold resched leave
    grind

/-- A store of the current task to itself, and the release of its caller. -/
theorem keepsDead_stores (hu : A.User) : A.KeepsDead (A.stores f) := by
  have halive := hu.alive
  intro t ht
  unfold stores
  grind

theorem keepsDead_abandon (hI : A.Inv N) (hu : A.User) : A.KeepsDead A.abandon := by
  have halive := hu.alive
  intro t ht
  unfold abandon
  split
  · exact ht
  · rename_i hc
    have hcaller := hI.caller_alive hc
    grind

theorem keepsDead_bury {i : Int} : A.KeepsDead (A.bury r i) := by
  intro t ht
  rw [bury_tasks.1]
  split
  · rfl
  · exact ht

theorem BuriedEffect.keepsDead {notices : Prop} (hI : A.Inv N)
    (he : A.BuriedEffect notices r answer B) : A.KeepsDead B := by
  intro t ht
  cases he with
  | other _ _ => exact ht
  | self _ _ =>
    unfold resched leave
    grind
  | told _ first =>
    have hr := hI.receiver_alive first.mem
    unfold resched leave wake
    grind
  | queued _ _ _ =>
    unfold resched leave
    grind

theorem SuspendEffect.keepsDead (he : A.SuspendEffect r answer B) : A.KeepsDead B := by
  intro t ht
  cases he with
  | self _ _ =>
    unfold resched leave
    grind
  | plain _ => grind
  | ready _ => grind
  | skip _ => exact ht

theorem ResumeEffect.keepsDead (he : A.ResumeEffect r answer B) : A.KeepsDead B := by
  intro t ht
  cases he with
  | wake _ =>
    unfold Desk.wake
    grind
  | skip _ => exact ht

theorem SwitchEffect.keepsDead (hu : A.User) (he : A.SwitchEffect r answer B) :
    A.KeepsDead B := by
  have halive := hu.alive
  intro t ht
  cases he with
  | switch _ =>
    unfold handOver swap
    grind
  | refuse _ => exact ht

theorem NotifyEffect.keepsDead (he : A.NotifyEffect r e answer B) : A.KeepsDead B := by
  intro t ht
  cases he with
  | set _ => grind
  | skip _ => exact ht

theorem GoOnEffect.keepsDead (hI : A.Inv N) (he : A.GoOnEffect answer B) : A.KeepsDead B := by
  intro t ht
  cases he with
  | @dispatch r _ first =>
    have hr := ((hI.ready r).mp (List.mem_of_head? first)).1
    unfold Desk.dispatch
    grind
  | send _ => exact ht
  | plain _ => exact ht
  | buried _ =>
    unfold resched leave
    grind

theorem CancelTurn.keepsDead (hI : A.Inv N) (halive : A.Alive e)
    (he : CancelTurn e side A B) : A.KeepsDead B := by
  obtain ⟨r, first, rfl⟩ := he
  have hr : (A.tasks r).state ≠ .killed := by
    cases side with
    | receiver => exact hI.receiver_alive first.mem
    | sender => exact halive r first.mem
  intro t ht
  unfold wake
  grind

theorem CancelLoop.keepsDead (hI : A.Inv N) (hp : A.Proper) (hu : A.User) (halive : A.Alive e)
    (he : CancelLoop e side A B) : A.KeepsDead B := by
  obtain ⟨hrun, -⟩ := he
  have hall : A.KeepsDead B ∧ B.Inv N ∧ B.Proper ∧ B.User ∧ B.Alive e := by
    induction hrun with
    | refl => exact ⟨fun _ => id, hI, hp, hu, halive⟩
    | tail _ hturn ih =>
      obtain ⟨hkeep, hI', hp', hu', halive'⟩ := ih
      exact ⟨hkeep.trans (hturn.keepsDead hI' halive'), hturn.inv hI' hp' hu' halive'⟩
  exact hall.1

/-- The dead stay dead in an orderly operation. -/
theorem Effect.keepsDead {op : Op} (hI : A.Inv N) (hp : A.Proper) (hu : A.User)
    (ho : A.Orderly op) (hkill : ∀ t i, op = .kill t i → N.deaths) (hidle : op.target ≠ some A.idle)
    (he : A.Effect N.notices op answer B) : A.KeepsDead B := by
  have hstore : ∀ f : Task → Task, A.KeepsDead (A.stores f) := fun _ => keepsDead_stores hu
  have hreceive : ∀ {D : Desk} {msg b e answer}, D.Inv N → D.Proper → D.User →
      (D.stores (Task.longMsg msg)).abandon.ReceiveEffect b e answer B → D.KeepsDead B := by
    intro D msg b e answer hI hp hu he
    have hS : (D.stores (Task.longMsg msg)).Inv N := hI.store hu hu.callee rfl hu.notReady
    have huS : (D.stores (Task.longMsg msg)).User := hu.store hu.callee hu.notReady hu.alive
    obtain ⟨-, -, hu', -, -⟩ := hS.abandon hp.mapTask huS
    exact (keepsDead_stores hu).trans ((keepsDead_abandon hS huS).trans (he.keepsDead hu'))
  cases op with
  | sendShort b e args =>
    exact (hstore _).trans (SendEffect.keepsDead (hI.store hu hu.callee rfl hu.notReady)
      (hu.store hu.callee hu.notReady hu.alive) he)
  | sendLong b e msg =>
    exact (hstore _).trans (SendEffect.keepsDead (hI.store hu hu.callee rfl hu.notReady)
      (hu.store hu.callee hu.notReady hu.alive) he)
  | receive b e msg => exact hreceive hI hp hu he
  | call e msg =>
    have hne : TaskState.waiting ≠ .ready ∧ TaskState.waiting ≠ .killed := by decide
    exact (hstore _).trans (CallEffect.keepsDead (hI.store hu hu.callee rfl hne.1)
      (hu.store hu.callee hne.1 hne.2) he)
  | reply e msg => exact ReplyEffect.keepsDead hI hu he
  | replyAndReceive e msg =>
    rcases he with ⟨hreply, rfl⟩ | ⟨D, hreply, he⟩
    · exact hreply.keepsDead hI hu
    · obtain ⟨hID, hpD, huD⟩ := hreply.inv hI hp hu
      exact (hreply.keepsDead hI hu).trans (hreceive hID hpD huD he)
  | cancel e =>
    obtain ⟨rfl, D, hloop, hloop'⟩ := he
    obtain ⟨hID, hpD, huD, haliveD⟩ := hloop.inv hI hp hu ho
    exact (hloop.keepsDead hI hp hu ho).trans (hloop'.keepsDead hID hpD huD haliveD)
  | yield =>
    obtain ⟨rfl, rfl⟩ := he
    have halive := hu.alive
    intro t ht
    unfold resched leave wake
    grind
  | switchTo t => exact SwitchEffect.keepsDead hu he
  | suspend t => exact SuspendEffect.keepsDead he
  | resume t => exact ResumeEffect.keepsDead he
  | kill t i =>
    obtain ⟨hfound, he⟩ := he
    obtain ⟨hB, -, -⟩ := hI.bury (i := i) (hkill t i rfl) hp (fun heq => hidle (heq ▸ rfl)) hfound
    exact keepsDead_bury.trans (he.keepsDead hB)
  | setKillNotify t e => exact NotifyEffect.keepsDead he

end KeepsDead

end Desk

section Runs

variable {env : Env} {c c' : Core} {t : TaskPtr}

/-- One step of an orderly run keeps the dead dead. -/
theorem Disciplined.killed_step (h : Disciplined ⟨True, env.ndebug = true⟩ c)
    {act : Move × Option Bool} (hok : c.kernel.Orderly act.1) (hstep : CoreStep env c act c')
    (hdead : (c.kernel.tasks t).state = .killed) : (c'.kernel.tasks t).state = .killed := by
  obtain ⟨move, answer⟩ := act
  cases move with
  | invoke op =>
    have htarget : op.target ≠ some c.kernel.idleTask := by
      cases hstep with
      | invoke _ htarget _ => exact htarget
    obtain ⟨A, B, hA, hI, hu, hB, he, -, -, -⟩ := h.invoke Kernel.Orderly.admits hok hstep
    have ho := Kernel.Orderly.admits.orderly _ _ _ hA hI hok
    rw [hA.state] at hdead
    rw [hB.state]
    exact he.keepsDead hI hA.proper hu ho (fun _ _ _ => trivial) (hA.idle ▸ htarget) t hdead
  | resume =>
    obtain ⟨A, B, hA, hI, -, hB, he, -, -, -⟩ := h.goOn hstep
    rw [hA.state] at hdead
    rw [hB.state]
    exact he.keepsDead hI t hdead
  | store memory =>
    cases hstep
    exact hdead

/-- What a dead task is kept from. -/
structure Kernel.Dead (k : Kernel) (t : TaskPtr) : Prop where
  state : (k.tasks t).state = .killed
  notCurrent : k.currentTask ≠ t
  notReady : ∀ l, Queue.Rep k.readyLinks k.readyQueue l → t ∉ l

theorem Disciplined.dead {N : Desk.Allows} (h : Disciplined N c)
    (hdead : (c.kernel.tasks t).state = .killed) : c.kernel.Dead t := by
  obtain ⟨A, hA, hI, hmode⟩ := h
  have hstate := hdead
  rw [hA.state] at hstate
  refine ⟨hdead, ?_, fun l hl ht => ?_⟩
  · rw [hA.current]
    rintro rfl
    cases hm : c.mode with
    | user =>
      rw [hm] at hmode
      exact hmode.alive hstate
    | kernel =>
      rw [hm] at hmode
      rcases hmode with heq | ⟨hrunning, -⟩
      · rw [heq, hI.idle.2] at hstate
        exact absurd hstate (by decide)
      · rw [hrunning] at hstate
        exact absurd hstate (by decide)
  · rw [hl.unique hA.ready, hI.ready, hstate] at ht
    exact absurd ht.1 (by decide)

end Runs

/-! ### A dead task of the small machine -/

/-- No endpoint is given up, no task is suspended or resumed, and who is killed neither waits nor
is dead. -/
def Calm (k : Kernel) : Move → Prop
  | .invoke (.suspend _) | .invoke (.resume _) | .invoke (.cancel _) => False
  | .invoke (.kill t _) => (k.tasks t).state ≠ .waiting ∧ (k.tasks t).state ≠ .killed
  | _ => True

instance (k : Kernel) : (op : Op) → Decidable (Calm k (.invoke op))
  | .suspend _ | .resume _ | .cancel _ => isFalse not_false
  | .kill t _ =>
    inferInstanceAs (Decidable ((k.tasks t).state ≠ .waiting ∧ (k.tasks t).state ≠ .killed))
  | .sendShort .. | .sendLong .. | .receive .. | .call .. | .reply .. | .replyAndReceive .. | .yield
  | .switchTo _ | .setKillNotify .. => isTrue trivial

theorem Calm.orderly {k : Kernel} {move : Move} (h : Calm k move) : k.Orderly move := by
  cases move with
  | invoke op =>
    cases op with
    | kill t i => exact ⟨fun hs => absurd hs h.1, fun hs => absurd hs h.2⟩
    | suspend t => exact absurd h id
    | resume t => exact absurd h id
    | cancel e => exact absurd h id
    | _ => trivial
  | _ => trivial

theorem Calm.run {env : Env} {c c' : Core} {acts : List (Move × Option Bool)}
    (h : CoreRun env Calm c acts c') : CoreRun env Kernel.Orderly c acts c' :=
  h.mono fun _ _ _ hs => ⟨hs.1.orderly, hs.2⟩

/-- The first task kills the third one, whose notice waits at an endpoint from then on. -/
theorem small_notice : ∃ acts c, CoreRun ⟨true, smallConfig⟩ Calm ⟨smallKernel, .user⟩ acts c ∧
    c.mode = .user ∧ (c.kernel.tasks 0x3000).state = .killed ∧
    ((c.invoke ⟨true, smallConfig⟩ (.receive true 0x100 0)).any fun next =>
      decide (next.1 = some true)) = true ∧
    ((c.invoke ⟨true, smallConfig⟩ (.cancel 0x100)).any fun next =>
      decide ((next.2.kernel.tasks 0x3000).state = .ready)) = true :=
  small_run _ _ (fun _ => trivial)
    [some (.setKillNotify 0x3000 0x100), some (.kill 0x3000 0), none, none] (by decide +kernel)

end Caprese
