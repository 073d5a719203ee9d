import Caprese.Kernel.Core
import Caprese.Sched.Invariant

/-!
# `Caprese.Sched.Effect`: what an operation does to a desk

One clause for each way through an operation that comes back to the running task or gives the
processor away. `Effect A op answer A'` says that `op`, issued by the current task of `A`, may
leave the desk `A'` and the answer `answer`, which is `none` when another task has the
processor. Whether a message can be handed over is left open: it depends on the memory of the
two tasks.

`Effect.inv` is the step lemma of the joint discipline: an operation that is orderly keeps it.
-/

set_option autoImplicit false

namespace Caprese

open Lib Prog

/-- The stores of `ipc_send_short` to its own task. -/
def Task.shortMsg (args : List Nat) (task : Task) : Task :=
  { task with ipcMsg := args, ipcMsgState := .shortSize }

/-- The stores of the other operations. -/
def Task.longMsg (msg : Nat) (task : Task) : Task :=
  { task.setIpcLongMsg msg with ipcMsgState := .longSize }

/-- The stores of `ipc_call`. -/
def Task.callMsg (endpoint : EndpointPtr) (msg : Nat) (task : Task) : Task :=
  { (task.setIpcLongMsg msg).waits .calling endpoint with ipcMsgState := .longSize }

/-- The stores to a task that waits for a message. -/
def Task.listens (endpoint : EndpointPtr) (task : Task) : Task :=
  { task with state := .waiting, ipcState := .receiving, endpoint := some endpoint }

/-- The stores to a caller that is answered, or given up. -/
def Task.released (ipcState : IpcState) (task : Task) : Task :=
  { task.sent ipcState with calleeTask := none }

/-- The stores of `ipc_cancel` to a task in a queue. -/
def Task.canceled (task : Task) : QueueSide → Task
  | .receiver => { task.received with ipcState := .canceled }
  | .sender => task.sent .canceled

namespace Desk

variable (A : Desk)

/-- What the joint discipline asks of an operation: that no waiting task is suspended, that no
task resumes itself, that a task that is killed while it sends or receives is in a queue, that
no notice of a task is made while one waits, and that no dead task is called off. -/
def Orderly : Op → Prop
  | .suspend t => (A.tasks t).state ≠ .waiting
  | .resume t => t ≠ A.current
  | .cancel e => ∀ t ∈ A.waiting e .sender, (A.tasks t).state ≠ .killed
  | .kill t _ =>
    ((A.tasks t).state = .waiting → (A.tasks t).ipcState = .calling ∨ A.Queued t) ∧
    ((A.tasks t).state = .killed → ∀ e, (A.tasks t).killNotify = some e →
      A.waiting e .receiver = [] → ¬ A.Queued t)
  | _ => True

/-- `kill_task` finds a task that waits: in a queue of its endpoint, or at its callee. -/
def Found (t : TaskPtr) : Prop :=
  (A.tasks t).state = .waiting → ∀ e, (A.tasks t).endpoint = some e →
    (A.tasks t).ipcState ≠ .calling ∧ A.Queued t ∨ ∃ s, (A.tasks s).callerTask = some t

/-- The current task stores to itself. -/
def stores (f : Task → Task) : Desk := A.mapTask A.current f

/-- A message is handed over, if it is. -/
def passed (sent : Bool) (dst src : TaskPtr) : Desk := if sent then A.deliver dst src else A

/-- The first task in a queue. -/
def First (endpoint : EndpointPtr) (side : QueueSide) (t : TaskPtr) : Prop :=
  (A.waiting endpoint side).head? = some t

/-- The current task gives up the caller that it has not answered. -/
def abandon : Desk :=
  match (A.tasks A.current).callerTask with
  | none => A
  | some caller =>
    ((A.mapTask caller (Task.released .canceled)).mapTask A.current fun task =>
      { task with callerTask := none }).pushReady caller

/-! ### Messages -/

/-- `ipc_send_short` and `ipc_send_long`, behind the store `f`. A `loose` send does not look at
what became of its message. -/
inductive SendEffect (loose : Prop) (blocking : Bool) (e : EndpointPtr) :
    Option Bool → Desk → Prop
  | meet {r : TaskPtr} {sent : Bool} (first : A.First e .receiver r) (passed : sent ∨ loose) :
      SendEffect loose blocking e none
        ((((A.passed sent r A.current).dequeue r e .receiver).mapTask r Task.received).handOver r)
  | fail (strict : ¬ loose) : SendEffect loose blocking e (some false) A
  | block (empty : A.waiting e .receiver = []) (blocks : blocking = true) :
      SendEffect loose blocking e none
        (((A.stores fun task => task.waits .sending e).enqueue A.current e .sender).resched .ipcSend)
  | refuse (empty : A.waiting e .receiver = []) (blocks : blocking = false) :
      SendEffect loose blocking e (some false) A

/-- `ipc_receive`, behind its store and `abandon`. -/
inductive ReceiveEffect (blocking : Bool) (e : EndpointPtr) : Option Bool → Desk → Prop
  | fail {s : TaskPtr} (first : A.First e .sender s) :
      ReceiveEffect blocking e (some false) (A.dequeue s e .sender)
  | bind {s : TaskPtr} (first : A.First e .sender s) (sends : (A.tasks s).Sends e)
      (calling : (A.tasks s).ipcState = .calling) :
      ReceiveEffect blocking e (some true)
        ((((A.deliver A.current s).dequeue s e .sender).mapTask s fun task =>
          { task with calleeTask := some A.current }).mapTask A.current fun task =>
          { task with callerTask := some s })
  | take {s : TaskPtr} (first : A.First e .sender s) (sends : (A.tasks s).Sends e)
      (calling : (A.tasks s).ipcState ≠ .calling) :
      ReceiveEffect blocking e none
        ((((A.deliver A.current s).dequeue s e .sender).mapTask s fun task =>
          task.sent .none).handOver s)
  | notice {s : TaskPtr} {f : Task → Task} (first : A.First e .sender s)
      (dead : (A.tasks s).Notifies e)
      (told : f = id ∨ f = fun task => { task with ipcMsgState := .empty }) :
      ReceiveEffect blocking e (some true) ((A.dequeue s e .sender).stores f)
  | block (empty : A.waiting e .sender = []) (blocks : blocking = true) :
      ReceiveEffect blocking e none
        (((A.stores (Task.listens e)).enqueue A.current e .receiver).resched .ipcReceive)
  | refuse (empty : A.waiting e .sender = []) (blocks : blocking = false) :
      ReceiveEffect blocking e (some false) A

/-- `ipc_reply`. -/
inductive ReplyEffect (msg : Nat) : Option Bool → Desk → Prop
  | none (caller : (A.tasks A.current).callerTask = none) : ReplyEffect msg (some true) A
  | fail {c : TaskPtr} (caller : (A.tasks A.current).callerTask = some c) :
      ReplyEffect msg (some false) (A.stores (Task.longMsg msg))
  | done {c : TaskPtr} (caller : (A.tasks A.current).callerTask = some c) :
      ReplyEffect msg (some true)
        (((((A.stores (Task.longMsg msg)).deliver c A.current).mapTask c
          (Task.released .none)).mapTask A.current fun task =>
          { task with callerTask := none, ipcMsgState := .empty }).pushReady c)

/-- `ipc_call`, behind its store. -/
inductive CallEffect (e : EndpointPtr) : Option Bool → Desk → Prop
  | fail : CallEffect e (some false) A
  | bind {r : TaskPtr} (first : A.First e .receiver r) :
      CallEffect e none
        (((((A.deliver r A.current).dequeue r e .receiver).mapTask r fun task =>
          { task.received with callerTask := some A.current }).mapTask A.current fun task =>
          { task with calleeTask := some r }).pushReady r |>.resched .ipcCall)
  | block (empty : A.waiting e .receiver = []) :
      CallEffect e none ((A.enqueue A.current e .sender).resched .ipcCall)

/-- One turn of `ipc_cancel`. -/
def CancelTurn (e : EndpointPtr) (side : QueueSide) (A A' : Desk) : Prop :=
  ∃ t, A.First e side t ∧ A' = (A.dequeue t e side).wake t fun task => task.canceled side

/-- One of the loops of `ipc_cancel`. -/
def CancelLoop (e : EndpointPtr) (side : QueueSide) (A A' : Desk) : Prop :=
  Relation.ReflTransGen (CancelTurn e side) A A' ∧ A'.waiting e side = []

/-- `ipc_cancel`. -/
def CancelEffect (e : EndpointPtr) (A' : Desk) : Prop :=
  ∃ B, CancelLoop e .receiver A B ∧ CancelLoop e .sender B A'

/-! ### The life of a task -/

/-- What `kill_task` does to the queues and to the callee of a task that waits. -/
def withdraw (t : TaskPtr) (endpoint : EndpointPtr) : Desk :=
  match (A.tasks t).ipcState with
  | .sending => A.dequeue t endpoint .sender
  | .receiving => A.dequeue t endpoint .receiver
  | _ =>
    match (A.tasks t).calleeTask with
    | some callee => A.mapTask callee fun task => { task with callerTask := none }
    | none => A

/-- What `kill_task` does before it stores to the task. -/
def unlink (t : TaskPtr) : Desk :=
  match (A.tasks t).state with
  | .ready => A.dropReady t
  | .waiting =>
    match (A.tasks t).endpoint with
    | some endpoint => A.withdraw t endpoint
    | none => A
  | _ => A

/-- The first part of `kill_task`: the task is dead. -/
def bury (t : TaskPtr) (exitStatus : Int) : Desk :=
  (A.unlink t).mapTask t fun task => { task with state := .killed, exitStatus := exitStatus }

/-- The rest of `kill_task`, for a task that is dead. That it waits in a queue to be told of is
what an assertion forbids. -/
inductive BuriedEffect (notices : Prop) (t : TaskPtr) : Option Bool → Desk → Prop
  | other (silent : (A.tasks t).killNotify = none) (ne : t ≠ A.current) :
      BuriedEffect notices t (some true) A
  | self (silent : (A.tasks t).killNotify = none) (eq : t = A.current) :
      BuriedEffect notices t none (A.resched .unreachable)
  | told {e : EndpointPtr} {r : TaskPtr} (notify : (A.tasks t).killNotify = some e)
      (first : A.First e .receiver r) :
      BuriedEffect notices t none
        (((A.dequeue r e .receiver).wake r Task.received).resched (.killNotify t))
  | queued {e : EndpointPtr} (notify : (A.tasks t).killNotify = some e)
      (empty : A.waiting e .receiver = []) (allowed : notices) :
      BuriedEffect notices t none
        (((A.mapTask t fun task =>
          { task with ipcState := .sending, eventType := .kill, endpoint := some e }).enqueue t e
          .sender).resched (.killNotify t))

/-- `suspend_task`. -/
inductive SuspendEffect (t : TaskPtr) : Option Bool → Desk → Prop
  | self (state : (A.tasks t).state = .running) (eq : t = A.current) :
      SuspendEffect t none ((A.mapTask t fun task => { task with state := .suspended }).resched
        .yielded)
  | plain (state : (A.tasks t).state = .running ∧ t ≠ A.current ∨ (A.tasks t).state = .waiting) :
      SuspendEffect t (some true) (A.mapTask t fun task => { task with state := .suspended })
  | ready (state : (A.tasks t).state = .ready) :
      SuspendEffect t (some true)
        ((A.dropReady t).mapTask t fun task => { task with state := .suspended })
  | skip (state : (A.tasks t).state = .suspended ∨ (A.tasks t).state = .killed ∨
        (A.tasks t).state = .unused) :
      SuspendEffect t (some true) A

/-- `resume_task`. -/
inductive ResumeEffect (t : TaskPtr) : Option Bool → Desk → Prop
  | wake (state : (A.tasks t).state = .suspended) :
      ResumeEffect t (some true) (A.wake t fun task => { task with state := .ready })
  | skip (state : (A.tasks t).state ≠ .suspended) : ResumeEffect t (some true) A

/-- `invoke_sys_task_cap_switch`. -/
inductive SwitchEffect (t : TaskPtr) : Option Bool → Desk → Prop
  | switch (state : (A.tasks t).state = .ready) : SwitchEffect t none ((A.dropReady t).handOver t)
  | refuse (state : (A.tasks t).state ≠ .ready) : SwitchEffect t (some false) A

/-- `invoke_sys_task_cap_set_kill_notify`. -/
inductive NotifyEffect (t : TaskPtr) (e : EndpointPtr) : Option Bool → Desk → Prop
  | set (state : (A.tasks t).state ≠ .unused) :
      NotifyEffect t e (some true) (A.mapTask t fun task => { task with killNotify := some e })
  | skip (state : (A.tasks t).state = .unused) : NotifyEffect t e (some true) A

/-- What an operation of the current task may do. -/
def Effect (notices : Prop) : Op → Option Bool → Desk → Prop
  | .sendShort blocking e args => (A.stores (Task.shortMsg args)).SendEffect True blocking e
  | .sendLong blocking e msg => (A.stores (Task.longMsg msg)).SendEffect False blocking e
  | .receive blocking e msg => (A.stores (Task.longMsg msg)).abandon.ReceiveEffect blocking e
  | .call e msg => (A.stores (Task.callMsg e msg)).CallEffect e
  | .reply _ msg => A.ReplyEffect msg
  | .replyAndReceive e msg => fun answer A' =>
    A.ReplyEffect msg (some false) A' ∧ answer = some false ∨
    ∃ B, A.ReplyEffect msg (some true) B ∧
      (B.stores (Task.longMsg msg)).abandon.ReceiveEffect true e answer A'
  | .cancel e => fun answer A' => answer = some true ∧ A.CancelEffect e A'
  | .yield => fun answer A' => answer = none ∧
    A' = (A.wake A.current fun task => { task with state := .ready }).resched .yielded
  | .switchTo t => A.SwitchEffect t
  | .suspend t => A.SuspendEffect t
  | .resume t => A.ResumeEffect t
  | .kill t exitStatus => fun answer A' =>
    A.Found t ∧ (A.bury t exitStatus).BuriedEffect notices t answer A'
  | .setKillNotify t e => A.NotifyEffect t e

/-- What the task that was switched in may do. -/
inductive GoOnEffect : Option Bool → Desk → Prop
  | dispatch {t : TaskPtr} (idle : A.current = A.idle) (first : A.ready.head? = some t) :
      GoOnEffect none (A.dispatch t)
  | send (context : (A.tasks A.current).context = .ipcSend ∨
        (A.tasks A.current).context = .ipcCall ∨ (A.tasks A.current).context = .ipcReceive) :
      GoOnEffect (some (decide ((A.tasks A.current).ipcState = .none))) A
  | plain (context : (A.tasks A.current).context ≠ .idle ∧
        (A.tasks A.current).context ≠ .ipcSend ∧ (A.tasks A.current).context ≠ .ipcCall ∧
        (A.tasks A.current).context ≠ .ipcReceive) : GoOnEffect (some true) A
  | buried (context : (A.tasks A.current).context = .killNotify A.current) :
      GoOnEffect none (A.resched .unreachable)

end Desk

end Caprese
