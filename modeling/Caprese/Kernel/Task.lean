import Caprese.Kernel.Ipc

/-!
# `Caprese.Kernel.Task`: the life of a task

`init_task`, `init_idle_task`, `kill_task`, `suspend_task` and `resume_task` of `task.cpp`.
-/

set_option autoImplicit false

namespace Caprese

open Lib Prog

/-- A task as `memset` leaves it. -/
def Task.zero : Task where
  context := .returnToUserMode
  tid := 0
  capCount := ⟨0, 0⟩
  prevReadyTask := none
  nextReadyTask := none
  prevWaitingTask := none
  nextWaitingTask := none
  callerTask := none
  calleeTask := none
  freeSlots := none
  freeSlotsCount := 0
  rootPageTable := 0
  endpoint := none
  killNotify := none
  ipcMsg := List.replicate 6 0
  state := .unused
  ipcState := .none
  ipcMsgState := .empty
  eventType := .none
  exitStatus := 0

/-- The width of `tid_t::index`. -/
abbrev CONFIG_MAX_TASKS : Nat := 2 ^ 22

def nextTid : K Nat := do
  modify fun k => { k with curTid := (k.curTid + 1) % 2 ^ 32 }
  return (← get).curTid

/-- Enters the kernel's window on the physical memory into a root table. -/
def mapMappedSpace (rootPageTable : TablePtr) : K Unit :=
  forM (fun i => do
    let phys := getPageSize MAX_PAGE_TABLE_LEVEL * i
    let index ← pageTableWalk (CONFIG_MAPPED_SPACE_BASE + phys) MAX_PAGE_TABLE_LEVEL
    kassert (((← get).pte rootPageTable index).isDisabled = true)
    modify fun k => k.setPte rootPageTable index
      ((k.pte rootPageTable index).fill .mappedSpace phys))
    (List.range (CONFIG_MAPPED_SPACE_SIZE / getPageSize MAX_PAGE_TABLE_LEVEL))

/-- The tables of the capability space are given by level. -/
def initTask (task : TaskPtr) (capSpace : SpacePtr) (rootPageTable : TablePtr)
    (capSpacePageTable0 capSpacePageTable1 : TablePtr) : K Unit := do
  kassert (((← get).tasks task).state = .unused)
  let tid ← nextTid
  modifyTask task fun t => { t with
    tid := tid
    capCount := ⟨0, 0⟩
    prevReadyTask := none
    nextReadyTask := none
    prevWaitingTask := none
    nextWaitingTask := none
    callerTask := none
    calleeTask := none
    freeSlots := none
    freeSlotsCount := 0
    rootPageTable := rootPageTable
    killNotify := none
    state := .suspended
    ipcState := .none
    ipcMsgState := .empty
    eventType := .none
    exitStatus := 0 }
  modify fun k => k.zeroTable rootPageTable
  mapMappedSpace rootPageTable
  modify fun k => (k.zeroTable capSpacePageTable0).zeroTable capSpacePageTable1
  let index ← pageTableWalk CONFIG_CAPABILITY_SPACE_BASE GIGA_PAGE_TABLE_LEVEL
  kassert (((← get).pte rootPageTable index).isDisabled = true)
  modify fun k => k.setPte rootPageTable index
    ((k.pte rootPageTable index).fill .capSpace capSpacePageTable1)
  if (← extendCapSpace task capSpacePageTable0) = none then stop .panic
  if (← insertCapSpace task capSpace) = false then stop .panic
  modifyTask task fun t => { t with context := .returnToUserMode }

def initIdleTask (task : TaskPtr) (rootPageTable : TablePtr) : K Unit := do
  kassert (((← get).tasks task).state = .unused)
  modifyTask task fun t => { t with
    capCount := ⟨0, 0⟩
    prevReadyTask := none
    nextReadyTask := none
    prevWaitingTask := none
    nextWaitingTask := none
    freeSlots := none
    rootPageTable := rootPageTable
    state := .ready }
  modify fun k => k.zeroTable rootPageTable
  mapMappedSpace rootPageTable
  modifyTask task fun t => { t with context := .idle }

/-- Takes a task that is killed out of the queue, or from the callee, that it waits at. -/
def leaveEndpoint (task : TaskPtr) (endpoint : EndpointPtr) : K Unit := do
  match ((← get).tasks task).ipcState with
  | .sending => removeWaitingQueue endpoint .sender task
  | .receiving => removeWaitingQueue endpoint .receiver task
  | .calling =>
    let callee ← deref ((← get).tasks task).calleeTask
    kassert (((← get).tasks callee).callerTask = some task)
    modifyTask callee fun t => { t with callerTask := none }
  | _ => stop .panic

/-- The `switch` of `kill_task`: the task leaves the queues that it is in. -/
def leaveQueues (task : TaskPtr) : K Unit := do
  match ((← get).tasks task).state with
  | .ready => removeReadyQueue task
  | .waiting =>
    match ((← get).tasks task).endpoint with
    | some endpoint => leaveEndpoint task endpoint
    | none => pure ()
  | _ => pure ()

def notifyKill (task : TaskPtr) : K Unit := do
  match ((← get).tasks task).killNotify with
  | some endpoint => ipcSendKillNotify endpoint task
  | none => pure ()

/-- The root task must not be killed. -/
def checkNotRoot (task : TaskPtr) : K Unit := do
  if ((← get).tasks task).tid % CONFIG_MAX_TASKS = 1 then stop .panic

/-- The rest of `kill_task` behind the notification. -/
def killTaskTail (task : TaskPtr) : K Unit := do
  checkNotRoot task
  if task = (← get).currentTask then resched .unreachable

def killTask (task : TaskPtr) (exitStatus : Int) : K Unit := do
  kassert (((← get).tasks task).state ≠ .unused)
  leaveQueues task
  modifyTask task fun t => { t with state := .killed, exitStatus := exitStatus }
  notifyKill task
  killTaskTail task

def suspendTask (task : TaskPtr) : K Unit := do
  match ((← get).tasks task).state with
  | .running =>
    modifyTask task fun t => { t with state := .suspended }
    if task = (← get).currentTask then resched .yielded
  | .ready =>
    removeReadyQueue task
    modifyTask task fun t => { t with state := .suspended }
  | .waiting => modifyTask task fun t => { t with state := .suspended }
  | _ => pure ()

def resumeTask (task : TaskPtr) : K Unit := do
  if ((← get).tasks task).state = .suspended then
    modifyTask task fun t => { t with state := .ready }
    pushReadyQueue task

def setKillNotify (task : TaskPtr) (endpoint : EndpointPtr) : K Unit := do
  if ((← get).tasks task).state = .unused then setErrno .eIllState
  else modifyTask task fun t => { t with killNotify := some endpoint }

end Caprese
