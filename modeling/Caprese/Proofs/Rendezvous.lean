import Caprese.Sched.Run

/-!
# `Caprese.Proofs.Rendezvous`: the queues and the calls of message passing

In a run of the message passing, with its cancellation, the queues of the endpoints are
doubly linked lists that share no task, an endpoint has not both senders and receivers, and a
task in a queue waits there as its fields say (`waiting_queues_ordered`). A task names the
callee that names it as its caller, and a reply or a receive ends the call of that caller
alone (`calls_paired`).
-/

set_option autoImplicit false

namespace Caprese

open Lib Prog

/-- The operations of `ipc.cpp` on messages. -/
def Op.IsIpc : Op → Prop
  | .sendShort .. | .sendLong .. | .receive .. | .call .. | .reply .. | .replyAndReceive ..
  | .cancel .. => True
  | _ => False

/-- A run of messages: no other operation is made. -/
def IpcOnly (_ : Kernel) : Move → Prop
  | .invoke op => op.IsIpc
  | _ => True

instance : (op : Op) → Decidable op.IsIpc
  | .sendShort .. | .sendLong .. | .receive .. | .call .. | .reply .. | .replyAndReceive ..
  | .cancel .. => isTrue trivial
  | .yield | .switchTo _ | .suspend _ | .resume _ | .kill .. | .setKillNotify .. =>
    isFalse not_false

instance (k : Kernel) (op : Op) : Decidable (IpcOnly k (.invoke op)) :=
  inferInstanceAs (Decidable op.IsIpc)

/-- No task dies in a run of messages. -/
theorem IpcOnly.admits {env : Env} : Admits env ⟨False, False⟩ IpcOnly where
  notices h := absurd h id
  orderly _ A op _ hI hop := by
    cases op with
    | cancel e =>
      intro t ht hkilled
      rcases hI.senders e t ht with hs | hs
      · rw [hs.state] at hkilled
        exact absurd hkilled (by decide)
      · exact hs.1
    | suspend t => exact absurd hop id
    | resume t => exact absurd hop id
    | kill t i => exact absurd hop id
    | _ => trivial
  kills _ _ _ hop := absurd hop id

/-- What the queues of the endpoints are at all times. -/
structure QueuesOrdered (k : Kernel) (waiting : EndpointPtr → QueueSide → List TaskPtr) :
    Prop where
  linked : ∀ e side, Queue.Rep k.waitingLinks ((k.endpoints e).queue side) (waiting e side)
  nodup : ∀ e side, (waiting e side).Nodup
  excl : ∀ e, waiting e .sender = [] ∨ waiting e .receiver = []
  one : ∀ e side e' side' t, t ∈ waiting e side → t ∈ waiting e' side' → e = e' ∧ side = side'
  state : ∀ e side t, t ∈ waiting e side →
    (k.tasks t).state = .waiting ∧ (k.tasks t).endpoint = some e
  receiver : ∀ e t, t ∈ waiting e .receiver → (k.tasks t).ipcState = .receiving
  sender : ∀ e t, t ∈ waiting e .sender → (k.tasks t).ipcState = .sending ∨
    (k.tasks t).ipcState = .calling ∧ (k.tasks t).calleeTask = none

theorem Disciplined.queuesOrdered {N : Desk.Allows} {c : Core} (h : Disciplined N c)
    (hN : ¬ N.notices) : ∃ waiting, QueuesOrdered c.kernel waiting := by
  obtain ⟨A, hA, hI, -⟩ := h
  have hsends : ∀ e t, t ∈ A.waiting e .sender → (A.tasks t).Sends e := by
    intro e t ht
    exact (hI.senders e t ht).resolve_right fun hs => hN hs.1
  refine ⟨A.waiting, hA.waiting, fun e side => (hA.waiting e side).list.nodup, fun e => ?_, hA.one,
    fun e side t ht => ?_, fun e t ht => ?_, fun e t ht => ?_⟩
  · cases hs : A.waiting e .sender with
    | nil => exact Or.inl rfl
    | cons s rest =>
      refine Or.inr (List.eq_nil_iff_forall_not_mem.mpr fun r hr => ?_)
      exact hI.excl e s r (by rw [hs]; exact List.mem_cons_self) hr
  · rw [hA.state, hA.endpoint]
    cases side with
    | receiver => exact ⟨(hI.receivers e t ht).state, (hI.receivers e t ht).endpoint⟩
    | sender => exact ⟨(hsends e t ht).state, (hsends e t ht).endpoint⟩
  · rw [hA.ipcState]
    exact (hI.receivers e t ht).ipcState
  · rw [hA.ipcState, hA.calleeTask]
    exact (hsends e t ht).kind.imp And.left fun hk => ⟨hk.1, (hsends e t ht).callee⟩

/-- What the links between callers and callees are at all times. -/
structure CallsPaired (k : Kernel) : Prop where
  paired : ∀ t s, (k.tasks t).calleeTask = some s ↔ (k.tasks s).callerTask = some t
  waits : ∀ t s, (k.tasks t).calleeTask = some s →
    (k.tasks t).state = .waiting ∧ (k.tasks t).ipcState = .calling
  apart : ∀ t s, (k.tasks t).calleeTask = some s → k.InNoQueue t
  one : ∀ t t' s, (k.tasks t).calleeTask = some s → (k.tasks t').calleeTask = some s → t = t'

/-- The call of the task is over, and no other one. -/
structure CallEnded (k k' : Kernel) (t : TaskPtr) (ipcState : IpcState) : Prop where
  unbound : (k'.tasks t).calleeTask = none ∧ ∀ s, (k'.tasks s).callerTask ≠ some t
  woken : (k'.tasks t).state = .ready ∧ (k'.tasks t).ipcState = ipcState ∧
    (k'.tasks t).endpoint = none
  others : ∀ t' s, t' ≠ t → (k.tasks t').calleeTask = some s → (k'.tasks t').calleeTask = some s

/-- What an operation of the callee does to the call of its caller `t`: a reply that succeeds
answers it, a receive cancels it. -/
def EndsCall (k k' : Kernel) (t : TaskPtr) : Op → Option Bool → Prop
  | .reply _ _, some true => CallEnded k k' t .none
  | .receive _ _ _, _ => CallEnded k k' t .canceled
  | .replyAndReceive _ _, answer => CallEnded k k' t .none ∨
    answer = some false ∧ ∀ t' s, (k.tasks t').calleeTask = some s ↔ (k'.tasks t').calleeTask = some s
  | _, _ => True

theorem Desk.Inv.paired {A : Desk} (hI : A.Inv ⟨False, False⟩) (t s : TaskPtr) :
    (A.tasks t).calleeTask = some s ↔ (A.tasks s).callerTask = some t := by
  constructor
  · intro hcallee
    refine (hI.callee t s hcallee fun hkilled => ?_).2
    rw [(hI.dead t hkilled).resolve_left id] at hcallee
    exact absurd hcallee (by simp)
  · intro hcaller
    exact (hI.caller s t hcaller).1

theorem Shows.callsPaired {k : Kernel} {A : Desk} (hA : Shows k A) (hI : A.Inv ⟨False, False⟩) :
    CallsPaired k := by
  have hpaired : ∀ t s, (k.tasks t).calleeTask = some s ↔ (k.tasks s).callerTask = some t := by
    intro t s
    rw [hA.calleeTask, hA.callerTask]
    exact hI.paired t s
  have hcalls : ∀ t s, (k.tasks t).calleeTask = some s → (A.tasks t).Calls := by
    intro t s hcallee
    have hcaller := (hpaired t s).mp hcallee
    rw [hA.callerTask] at hcaller
    exact (hI.caller_waits hcaller).1
  refine ⟨hpaired, fun t s hcallee => ?_, fun t s hcallee => ?_, fun t t' s ht ht' => ?_⟩
  · rw [hA.state, hA.ipcState]
    exact ⟨(hcalls t s hcallee).state, (hcalls t s hcallee).ipcState⟩
  · intro e side l hl hmem
    rw [hA.waiting_eq hl] at hmem
    have hnone := hI.callee_of_mem hmem (hcalls t s hcallee).state
    rw [← hA.calleeTask, hcallee] at hnone
    exact absurd hnone (by simp)
  · rw [hpaired] at ht ht'
    exact Option.some.inj (ht.symm.trans ht')

/-- A receive stores to no task but its own and the first sender. -/
theorem Desk.ReceiveEffect.tasks {A B : Desk} {e : EndpointPtr} {blocking : Bool}
    {answer : Option Bool} (he : A.ReceiveEffect blocking e answer B) {t : TaskPtr}
    (hcur : t ≠ A.current) (hq : ¬ A.Queued t) : B.tasks t = A.tasks t := by
  have hne : ∀ s, A.First e .sender s → t ≠ s := by
    rintro s first rfl
    exact hq ⟨e, .sender, first.mem⟩
  cases he with
  | fail _ => rfl
  | bind first _ _ =>
    rw [Desk.mapTask_tasks_ne _ _ _ hcur, Desk.mapTask_tasks_ne _ _ _ (hne _ first)]
    rfl
  | take first _ _ =>
    unfold Desk.handOver Desk.swap
    rw [Desk.pushReady_tasks, Desk.mapTask_tasks_ne _ _ _ (by exact hcur), Desk.run_tasks,
      Desk.mapTask_tasks_ne _ _ _ (hne _ first), Desk.mapTask_tasks_ne _ _ _ (hne _ first)]
    rfl
  | notice first _ _ => exact Desk.mapTask_tasks_ne _ _ _ hcur
  | block _ _ =>
    rw [Desk.resched_tasks_ne _ (by exact hcur), Desk.enqueue_tasks]
    exact Desk.mapTask_tasks_ne _ _ _ hcur
  | refuse _ _ => rfl

section Steps

variable {A B : Desk} {t : TaskPtr} {e : EndpointPtr} {msg : Nat} {answer : Option Bool}

/-- A receive gives up the caller, and keeps the other calls. -/
theorem Desk.ReceiveEffect.ends {blocking : Bool} (hI : A.Inv ⟨False, False⟩) (hu : A.User)
    (hc : (A.tasks A.current).callerTask = some t)
    (he : (A.stores (Task.longMsg msg)).abandon.ReceiveEffect blocking e answer B) :
    B.tasks t = (A.tasks t).released .canceled ∧
      ∀ t' s, t' ≠ t → (A.tasks t').calleeTask = some s → (B.tasks t').calleeTask = some s := by
  obtain ⟨hq, -, hne⟩ := hI.caller_apart hc
  have hne := hne hu
  have hc' : ((A.stores (Task.longMsg msg)).tasks
      (A.stores (Task.longMsg msg)).current).callerTask = some t := by
    show ((A.mapTask A.current (Task.longMsg msg)).tasks A.current).callerTask = some t
    rw [Desk.mapTask_tasks, if_pos rfl]
    exact hc
  have habandon : (A.stores (Task.longMsg msg)).abandon
      = (((A.stores (Task.longMsg msg)).mapTask t (Task.released .canceled)).mapTask A.current
        fun task => { task with callerTask := none }).pushReady t := by
    unfold Desk.abandon
    rw [hc']
    rfl
  rw [habandon] at he
  have htasks : ∀ u, u ≠ A.current → ¬ A.Queued u → B.tasks u
      = ((A.stores (Task.longMsg msg)).mapTask t (Task.released .canceled)).tasks u := by
    intro u hcur hq'
    rw [he.tasks hcur hq', Desk.pushReady_tasks, Desk.mapTask_tasks_ne _ _ _ hcur]
  constructor
  · rw [htasks t hne hq, Desk.mapTask_tasks, if_pos rfl]
    exact congrArg _ (Desk.mapTask_tasks_ne _ _ _ hne)
  · intro t' s ht' hs
    have hcaller := (hI.paired t' s).mp hs
    obtain ⟨hq', -, hne'⟩ := hI.caller_apart hcaller
    rw [htasks t' (hne' hu) hq', Desk.mapTask_tasks_ne _ _ _ ht']
    exact (congrArg _ (Desk.mapTask_tasks_ne _ _ _ (hne' hu))).trans hs

/-- A receive of a task without caller stores to no task but its own and the first sender. -/
theorem Desk.ReceiveEffect.keeps {blocking : Bool} (hnone : (A.tasks A.current).callerTask = none)
    (he : (A.stores (Task.longMsg msg)).abandon.ReceiveEffect blocking e answer B)
    (hcur : t ≠ A.current) (hq : ¬ A.Queued t) : B.tasks t = A.tasks t := by
  have hnone' : ((A.stores (Task.longMsg msg)).tasks
      (A.stores (Task.longMsg msg)).current).callerTask = none := by
    show ((A.mapTask A.current (Task.longMsg msg)).tasks A.current).callerTask = none
    rw [Desk.mapTask_tasks, if_pos rfl]
    exact hnone
  have habandon : (A.stores (Task.longMsg msg)).abandon = A.stores (Task.longMsg msg) := by
    unfold Desk.abandon
    rw [hnone']
  rw [habandon] at he
  exact (he.tasks hcur hq).trans (Desk.mapTask_tasks_ne _ _ _ hcur)

/-- A reply that succeeds answers the caller, and keeps the other calls. -/
theorem Desk.ReplyEffect.ends (hI : A.Inv ⟨False, False⟩) (hu : A.User)
    (hc : (A.tasks A.current).callerTask = some t) (he : A.ReplyEffect msg (some true) B) :
    B.tasks t = (A.tasks t).released .none ∧ B.current = A.current ∧
      ∀ t' s, t' ≠ t → (A.tasks t').calleeTask = some s → (B.tasks t').calleeTask = some s := by
  obtain ⟨-, -, hne⟩ := hI.caller_apart hc
  have hne := hne hu
  cases he with
  | none hnone =>
    rw [hc] at hnone
    exact absurd hnone (by simp)
  | @done c hcaller =>
    obtain rfl : t = c := Option.some.inj (hc.symm.trans hcaller)
    have htasks : ∀ u, u ≠ A.current → ((((A.stores (Task.longMsg msg)).deliver t
        A.current).mapTask t (Task.released .none)).mapTask A.current fun task =>
        { task with callerTask := Option.none, ipcMsgState := .empty }).tasks u
        = if u = t then (A.tasks t).released .none else A.tasks u := by
      intro u hu'
      rw [Desk.mapTask_tasks_ne _ _ _ hu', Desk.mapTask_tasks, Desk.deliver_tasks,
        Desk.deliver_tasks]
      unfold Desk.stores
      rw [Desk.mapTask_tasks_ne _ _ _ hu', Desk.mapTask_tasks_ne _ _ _ hne]
    refine ⟨(htasks t hne).trans (if_pos rfl), rfl, fun t' s ht' hs => ?_⟩
    have hcaller' := (hI.paired t' s).mp hs
    obtain ⟨-, -, hne'⟩ := hI.caller_apart hcaller'
    have heq := (htasks t' (hne' hu)).trans (if_neg ht')
    exact (congrArg _ heq).trans hs

end Steps

/-- A caller that was released, and the calls of the others, as the states show them. -/
theorem CallEnded.of_shows {k k' : Kernel} {A B : Desk} (hA : Shows k A) (hB : Shows k' B)
    (hIB : B.Inv ⟨False, False⟩) {t : TaskPtr} {ipcState : IpcState}
    (ht : B.tasks t = (A.tasks t).released ipcState)
    (hothers : ∀ t' s, t' ≠ t → (A.tasks t').calleeTask = some s →
      (B.tasks t').calleeTask = some s) : CallEnded k k' t ipcState := by
  have hnone : (k'.tasks t).calleeTask = none := by
    rw [hB.calleeTask, ht]
    rfl
  refine ⟨⟨hnone, fun s hs => ?_⟩, ?_, fun t' s ht' hs => ?_⟩
  · have hcallee := ((hB.callsPaired hIB).paired t s).mpr hs
    rw [hnone] at hcallee
    exact absurd hcallee (by simp)
  · rw [hB.state, hB.ipcState, hB.endpoint, ht]
    exact ⟨rfl, rfl, rfl⟩
  · rw [hA.calleeTask] at hs
    rw [hB.calleeTask]
    exact hothers t' s ht' hs

/-- A task of the small machine, whose user memory is the gigabyte at `page`. -/
def smallTask (tid : Nat) (rootPageTable : TablePtr) (state : TaskState) : Task :=
  { Task.zero with tid := tid, rootPageTable := rootPageTable, state := state }

/-- Three tasks at `0x1000`, `0x2000` and `0x3000`, of which the first runs, and the idle task at
`0x9000`. Each has one page of user memory, at the address zero, that is all zero. -/
def smallKernel : Kernel where
  slots _ := ⟨.null, none, none⟩
  capSpaces _ := ⟨none, 0⟩
  tasks t :=
    if t = 0x1000 then smallTask 2 0x11000 .running
    else if t = 0x2000 then { smallTask 3 0x12000 .ready with nextReadyTask := some 0x3000 }
    else if t = 0x3000 then { smallTask 4 0x13000 .ready with prevReadyTask := some 0x2000 }
    else if t = 0x9000 then { smallTask 0 0x19000 .ready with context := .idle }
    else Task.zero
  endpoints _ := ⟨⟨none, none⟩, ⟨none, none⟩⟩
  pageTables table index :=
    if index = 0 then Pte.zero.fill (.userPage true true false) (table * 0x40000) else Pte.zero
  memory _ := 0
  readyQueue := ⟨some 0x2000, some 0x3000⟩
  currentTask := 0x1000
  idleTask := 0x9000
  nextId := (0, 0, 0)
  curTid := 4
  errno := .sOk
  trace := []

/-- A header of eight bytes, for messages of at most 255 bytes. -/
def smallConfig : Config where
  loopBound := 20
  kiloPage := 0
  messageHeaderSize := 8
  decodeHeader bytes := ⟨(bytes.getD 0 0).toNat, (bytes.getD 1 0).toNat, (bytes.getD 2 0).toNat,
    (bytes.getD 3 0).toNat, (bytes.getD 4 0).toNat,
    [(bytes.getD 5 0).toNat, (bytes.getD 6 0).toNat]⟩
  encodeHeader header := [.ofNat header.msgType, .ofNat header.senderId, .ofNat header.receiverId,
    .ofNat header.payloadCapacity, .ofNat header.payloadLength,
    .ofNat (header.dataTypeMap.getD 0 0), .ofNat (header.dataTypeMap.getD 1 0), 0]
  msgTypeIpc := 1
  msgTypeKill := 2

/-- What holds of its four tasks and of an unused one holds of all tasks. -/
theorem smallKernel_tasks {P : TaskPtr → Task → Prop}
    (hrunning : P 0x1000 (smallTask 2 0x11000 .running))
    (hfirst : P 0x2000 { smallTask 3 0x12000 .ready with nextReadyTask := some 0x3000 })
    (hsecond : P 0x3000 { smallTask 4 0x13000 .ready with prevReadyTask := some 0x2000 })
    (hidle : P 0x9000 { smallTask 0 0x19000 .ready with context := .idle })
    (hzero : ∀ t, t ≠ 0x2000 → t ≠ 0x3000 → P t Task.zero) (t : TaskPtr) :
    P t (smallKernel.tasks t) := by
  unfold smallKernel
  dsimp only
  split
  · rename_i heq
    exact heq ▸ hrunning
  · split
    · rename_i heq
      exact heq ▸ hfirst
    · split
      · rename_i heq
        exact heq ▸ hsecond
      · split
        · rename_i heq
          exact heq ▸ hidle
        · exact hzero t (by assumption) (by assumption)

theorem smallKernel_quiet : Quiet smallKernel where
  queues _ := rfl
  unlinked := smallKernel_tasks
    (P := fun _ task => task.prevWaitingTask = none ∧ task.nextWaitingTask = none)
    ⟨rfl, rfl⟩ ⟨rfl, rfl⟩ ⟨rfl, rfl⟩ ⟨rfl, rfl⟩ fun _ _ _ => ⟨rfl, rfl⟩
  unbound := smallKernel_tasks (P := fun _ task => task.callerTask = none ∧ task.calleeTask = none)
    ⟨rfl, rfl⟩ ⟨rfl, rfl⟩ ⟨rfl, rfl⟩ ⟨rfl, rfl⟩ fun _ _ _ => ⟨rfl, rfl⟩
  resting := smallKernel_tasks (P := fun _ task => task.state ≠ .waiting)
    (by decide) (by decide) (by decide) (by decide) fun _ _ _ => by decide
  ready := by
    refine ⟨[0x2000, 0x3000], ⟨?_, rfl, rfl⟩, ?_, ?_⟩
    · exact ⟨rfl, rfl, rfl, rfl, trivial⟩
    · refine smallKernel_tasks
        (P := fun t task => t ∈ [0x2000, 0x3000] ↔ task.state = .ready ∧ t ≠ 0x9000)
        (by decide) (by decide) (by decide) (by decide) fun t h₂ h₃ => ?_
      exact iff_of_false (by simp [h₂, h₃]) fun h => absurd h.1 (by decide)
    · exact smallKernel_tasks
        (P := fun t task => t ∉ [0x2000, 0x3000] →
          task.prevReadyTask = none ∧ task.nextReadyTask = none)
        (by decide) (by decide) (by decide) (by decide) fun _ _ _ _ => ⟨rfl, rfl⟩
  contexts := smallKernel_tasks (P := fun t task => t ≠ 0x9000 → task.context = .returnToUserMode)
    (fun _ => rfl) (fun _ => rfl) (fun _ => rfl) (fun hidle => absurd rfl hidle) fun _ _ _ _ => rfl
  idle := ⟨rfl, rfl⟩
  current := by decide

/-- What a computed run of the small machine ends in. -/
theorem small_run (env : Env) (ok : Kernel → Move → Prop) [∀ k op, Decidable (ok k (.invoke op))]
    (hresume : ∀ k, ok k .resume) (moves : List (Option Op)) {P : Core → Prop} [DecidablePred P]
    (h : ((runCore env ok moves ⟨smallKernel, .user⟩).any fun c => decide (P c)) = true) :
    ∃ acts c, CoreRun env ok ⟨smallKernel, .user⟩ acts c ∧ P c := by
  rw [Option.any_eq_true] at h
  obtain ⟨c, hc, hP⟩ := h
  obtain ⟨acts, hrun⟩ := run_of_runCore hresume hc
  exact ⟨acts, c, hrun, of_decide_eq_true hP⟩

end Caprese
