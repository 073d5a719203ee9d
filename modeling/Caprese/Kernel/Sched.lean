import Caprese.Kernel.Types

/-!
# `Caprese.Kernel.Sched`: the ready queue and the processor

The queues of `task.cpp` and `ipc.cpp` over their own pairs of link fields, and the two ways
to give up the processor: `switch_task` to a task at hand, `resched` to the idle task. Both
end in `switch_context`, where the run of the present task stops: what its saved context
stands for is recorded in `Task.context`.
-/

set_option autoImplicit false

namespace Caprese

open Lib Prog

/-- Stores into the fields of a task. -/
def Kernel.mapTask (k : Kernel) (task : TaskPtr) (f : Task → Task) : Kernel :=
  { k with tasks := upd k.tasks task (f (k.tasks task)) }

def modifyTask (task : TaskPtr) (f : Task → Task) : K Unit := modify fun k => k.mapTask task f

/-! ### The ready queue -/

namespace Kernel

/-- The links of the ready queue. -/
def readyLinks (k : Kernel) : Links TaskPtr where
  prev t := (k.tasks t).prevReadyTask
  next t := (k.tasks t).nextReadyTask

def setReadyLinks (k : Kernel) (L : Links TaskPtr) : Kernel :=
  { k with tasks := fun t =>
      { k.tasks t with prevReadyTask := L.prev t, nextReadyTask := L.next t } }

/-- The links of the waiting queues. -/
def waitingLinks (k : Kernel) : Links TaskPtr where
  prev t := (k.tasks t).prevWaitingTask
  next t := (k.tasks t).nextWaitingTask

def setWaitingLinks (k : Kernel) (L : Links TaskPtr) : Kernel :=
  { k with tasks := fun t =>
      { k.tasks t with prevWaitingTask := L.prev t, nextWaitingTask := L.next t } }

end Kernel

def pushReadyQueue (task : TaskPtr) : K Unit := do
  kassert (((← get).tasks task).state = .ready)
  kassert (((← get).tasks task).prevReadyTask = none)
  kassert (((← get).tasks task).nextReadyTask = none)
  let (queue, links) ← deref ((← get).readyQueue.push (← get).readyLinks task)
  modify fun k => { k.setReadyLinks links with readyQueue := queue }

def removeReadyQueue (task : TaskPtr) : K Unit := do
  kassert (((← get).tasks task).state = .ready)
  let (queue, links) ← deref ((← get).readyQueue.remove (← get).readyLinks task)
  modify fun k => { k.setReadyLinks links with readyQueue := queue }

def popReadyTask : K (Option TaskPtr) := do
  match (← get).readyQueue.head with
  | none => return none
  | some task =>
    removeReadyQueue task
    return some task

/-! ### Waiting queues -/

/-- The two queues of an endpoint. -/
inductive QueueSide where
  | sender | receiver
deriving DecidableEq, Repr

def Endpoint.queue (e : Endpoint) : QueueSide → TaskQueue
  | .sender => e.senderQueue
  | .receiver => e.receiverQueue

def Endpoint.setQueue (e : Endpoint) (q : TaskQueue) : QueueSide → Endpoint
  | .sender => { e with senderQueue := q }
  | .receiver => { e with receiverQueue := q }

def Kernel.setQueue (k : Kernel) (endpoint : EndpointPtr) (side : QueueSide) (q : TaskQueue) :
    Kernel :=
  { k with endpoints := upd k.endpoints endpoint ((k.endpoints endpoint).setQueue q side) }

def pushWaitingQueue (endpoint : EndpointPtr) (side : QueueSide) (task : TaskPtr) : K Unit := do
  kassert (((← get).tasks task).state = .waiting)
  kassert (((← get).tasks task).prevWaitingTask = none)
  kassert (((← get).tasks task).nextWaitingTask = none)
  let (queue, links) ←
    deref ((((← get).endpoints endpoint).queue side).push (← get).waitingLinks task)
  modify fun k => (k.setWaitingLinks links).setQueue endpoint side queue

def removeWaitingQueue (endpoint : EndpointPtr) (side : QueueSide) (task : TaskPtr) :
    K Unit := do
  kassert (((← get).tasks task).state = .waiting)
  let (queue, links) ←
    deref ((((← get).endpoints endpoint).queue side).remove (← get).waitingLinks task)
  modify fun k => (k.setWaitingLinks links).setQueue endpoint side queue

/-! ### Giving up the processor -/

/-- `switch_context`: `old` continues with `resume` when it is switched in again. -/
def switchContext {α : Type} (old : TaskPtr) (resume : Resume) : K α := do
  modifyTask old fun t => { t with context := resume }
  stop .switched

def resched {α : Type} (resume : Resume) : K α := do
  let curTask := (← get).currentTask
  modify fun k => { k with currentTask := k.idleTask }
  switchContext curTask resume

def switchTask (task : TaskPtr) (resume : Resume) : K Unit := do
  kassert (((← get).tasks task).state = .ready)
  let oldTask := (← get).currentTask
  if task = oldTask then pure ()
  else
    modifyTask task fun t => { t with state := .running }
    modify fun k => { k with currentTask := task }
    modifyTask oldTask fun t => { t with state := .ready }
    pushReadyQueue oldTask
    switchContext oldTask resume

/-- What `switch_task` asserts when its caller is switched in again. -/
def switchTaskTail : K Unit := do
  kassert (((← get).tasks (← get).currentTask).state = .running)

def yield : K Unit := do
  let curTask := (← get).currentTask
  modifyTask curTask fun t => { t with state := .ready }
  pushReadyQueue curTask
  resched .yielded

/-- One turn of the loop of `idle`. -/
def idle : K Unit := do
  match ← popReadyTask with
  | none => pure ()
  | some task =>
    modify fun k => { k with currentTask := task }
    modifyTask task fun t => { t with state := .running }
    switchContext (← get).idleTask .idle

end Caprese
