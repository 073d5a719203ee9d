import Caprese.Kernel.Task
import Caprese.Lib.Steps

/-!
# `Caprese.Kernel.Core`: one core that runs tasks

The operations on tasks and endpoints as system calls of the running task, and the core as a
machine. The running task enters the kernel with an operation (`Move.invoke`). The operation
returns to it, or ends in `switch_context`. Then the task that was switched in goes on where
its context says (`Move.resume`): behind the `switch_context` that it left the processor
through, in the loop of `idle`, or in user mode. In user mode a task stores to its memory
(`Move.store`).

A failed assertion, a panic, a null dereference, an endless loop and what is undefined end
the run.
-/

set_option autoImplicit false

namespace Caprese

open Lib Prog

/-- The operations on tasks and endpoints. -/
inductive Op where
  | sendShort (blocking : Bool) (endpoint : EndpointPtr) (args : List Nat)
  | sendLong (blocking : Bool) (endpoint : EndpointPtr) (msg : Nat)
  | receive (blocking : Bool) (endpoint : EndpointPtr) (msg : Nat)
  | call (endpoint : EndpointPtr) (msg : Nat)
  | reply (endpoint : EndpointPtr) (msg : Nat)
  | replyAndReceive (endpoint : EndpointPtr) (msg : Nat)
  /-- What the destructor of an endpoint does. -/
  | cancel (endpoint : EndpointPtr)
  | yield
  | switchTo (task : TaskPtr)
  | suspend (task : TaskPtr)
  | resume (task : TaskPtr)
  | kill (task : TaskPtr) (exitStatus : Int)
  | setKillNotify (task : TaskPtr) (endpoint : EndpointPtr)
deriving DecidableEq, Repr

/-- `invoke_sys_task_cap_switch`, behind the checks of its capability. -/
def invokeSwitch (task : TaskPtr) : K Bool := do
  if ((← get).tasks task).state ≠ .ready then return false
  removeReadyQueue task
  switchTask task .switchTask
  return true

/-- `invoke_sys_endpoint_cap_reply_and_receive`, behind the checks of its capability. -/
def invokeReplyAndReceive (endpoint : EndpointPtr) (msg : Nat) : K Bool := do
  if ← ipcReply endpoint msg then ipcReceive true endpoint msg else return false

/-- The function that serves an operation. The answer is whether the system call succeeds. -/
def Op.serve : Op → K Bool
  | .sendShort blocking endpoint args => ipcSendShort blocking endpoint args
  | .sendLong blocking endpoint msg => ipcSendLong blocking endpoint msg
  | .receive blocking endpoint msg => ipcReceive blocking endpoint msg
  | .call endpoint msg => ipcCall endpoint msg
  | .reply endpoint msg => ipcReply endpoint msg
  | .replyAndReceive endpoint msg => invokeReplyAndReceive endpoint msg
  | .cancel endpoint => do ipcCancel endpoint; return true
  | .yield => do Caprese.yield; return true
  | .switchTo task => invokeSwitch task
  | .suspend task => do suspendTask task; return true
  | .resume task => do resumeTask task; return true
  | .kill task exitStatus => do killTask task exitStatus; return true
  | .setKillNotify task endpoint => do Caprese.setKillNotify task endpoint; return true

/-- The task that an operation is about, as its capability names it. -/
def Op.target : Op → Option TaskPtr
  | .switchTo task | .suspend task | .resume task | .kill task _ | .setKillNotify task _ =>
    some task
  | _ => none

/-- What a task that is switched in goes on with, up to the answer of its system call. -/
def Resume.goOn : Resume → K Bool
  | .returnToUserMode | .yielded => return true
  | .ipcSend | .ipcCall => ipcSendTail
  | .ipcReceive => ipcReceiveTail
  | .switchTask => do switchTaskTail; return true
  | .killNotify task => do killTaskTail task; return true
  -- `std::unreachable` is undefined.
  | .unreachable => stop .panic
  -- An empty ready queue stays empty, so the loop turns forever.
  | .idle => do Caprese.idle; stop .diverged

/-! ### The machine -/

/-- Where the processor is: in the user mode of the current task, or at the point in the
kernel at which this task was switched in. -/
inductive Mode where
  | user | kernel
deriving DecidableEq, Repr

structure Core where
  kernel : Kernel
  mode : Mode

inductive Move where
  | invoke (op : Op)
  | resume
  | store (memory : PhysAddr → UInt8)

/-- How the core goes on after a run of kernel code, if it does. -/
def Outcome.toCore : Outcome Stop Kernel Bool → Option (Option Bool × Core)
  | .ok answer k => some (some answer, ⟨k, .user⟩)
  | .stop .switched k => some (none, ⟨k, .kernel⟩)
  | .stop _ _ => none

/-- The task behind the context of the current one. -/
def Kernel.goOn (k : Kernel) : K Bool := (k.tasks k.currentTask).context.goOn

/-- One step of the core. The label tells the answer that the current task gets, if it is back
in user mode. No capability names the idle task. -/
inductive CoreStep (env : Env) (c : Core) : Move × Option Bool → Core → Prop
  | invoke {op : Op} {answer : Option Bool} {c' : Core} (user : c.mode = .user)
      (target : op.target ≠ some c.kernel.idleTask)
      (run : Outcome.toCore (op.serve env c.kernel) = some (answer, c')) :
      CoreStep env c (.invoke op, answer) c'
  | resume {answer : Option Bool} {c' : Core} (kernel : c.mode = .kernel)
      (run : Outcome.toCore (c.kernel.goOn env c.kernel) = some (answer, c')) :
      CoreStep env c (.resume, answer) c'
  | store {memory : PhysAddr → UInt8} (user : c.mode = .user) :
      CoreStep env c (.store memory, none) { c with kernel := { c.kernel with memory := memory } }

/-- A run of the core in which every move meets the condition `ok` in the state in which it is
made. -/
abbrev CoreRun (env : Env) (ok : Kernel → Move → Prop) :
    Core → List (Move × Option Bool) → Core → Prop :=
  Steps fun c act c' => ok c.kernel act.1 ∧ CoreStep env c act c'

/-! ### Steps, computed -/

/-- The step that an operation makes. -/
def Core.invoke (env : Env) (op : Op) (c : Core) : Option (Option Bool × Core) :=
  if c.mode = .user ∧ op.target ≠ some c.kernel.idleTask then
    Outcome.toCore (op.serve env c.kernel)
  else none

/-- The step of the task that was switched in. -/
def Core.goOn (env : Env) (c : Core) : Option (Option Bool × Core) :=
  if c.mode = .kernel then Outcome.toCore (c.kernel.goOn env c.kernel) else none

theorem step_of_invoke {env : Env} {c c' : Core} {op : Op} {answer : Option Bool}
    (h : c.invoke env op = some (answer, c')) : CoreStep env c (.invoke op, answer) c' := by
  unfold Core.invoke at h
  split at h
  · rename_i hc
    exact .invoke hc.1 hc.2 h
  · exact absurd h (by simp)

theorem step_of_goOn {env : Env} {c c' : Core} {answer : Option Bool}
    (h : c.goOn env = some (answer, c')) : CoreStep env c (.resume, answer) c' := by
  unfold Core.goOn at h
  split at h
  · rename_i hc
    exact .resume hc h
  · exact absurd h (by simp)

section Compute

variable (env : Env) (ok : Kernel → Move → Prop) [∀ k op, Decidable (ok k (.invoke op))]

/-- A run of operations, computed: `none` stands for the task that was switched in. -/
def runCore : List (Option Op) → Core → Option Core
  | [], c => some c
  | some op :: moves, c =>
    if ok c.kernel (.invoke op) then
      (c.invoke env op).bind fun next => runCore moves next.2
    else none
  | none :: moves, c => (c.goOn env).bind fun next => runCore moves next.2

variable {env ok}

theorem run_of_runCore (hresume : ∀ k, ok k .resume) {moves : List (Option Op)} {c c' : Core}
    (h : runCore env ok moves c = some c') : ∃ acts, CoreRun env ok c acts c' := by
  induction moves generalizing c with
  | nil =>
    obtain rfl := Option.some.inj h
    exact ⟨[], .nil⟩
  | cons move moves ih =>
    cases move with
    | some op =>
      unfold runCore at h
      split at h
      · rename_i hok
        obtain ⟨next, hnext, hrest⟩ := Option.bind_eq_some_iff.mp h
        obtain ⟨acts, hrun⟩ := ih hrest
        exact ⟨_, (Steps.single ⟨hok, step_of_invoke hnext⟩).append hrun⟩
      · exact absurd h (by simp)
    | none =>
      obtain ⟨next, hnext, hrest⟩ := Option.bind_eq_some_iff.mp h
      obtain ⟨acts, hrun⟩ := ih hrest
      exact ⟨_, (Steps.single ⟨hresume _, step_of_goOn hnext⟩).append hrun⟩

end Compute

end Caprese
