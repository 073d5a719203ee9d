import Caprese.Kernel.Core

/-!
# `Caprese.Kernel.Frame`: the registers of a task in the kernel

The frame that a trap saves the registers of a task in (`frame.cpp`), what `_user_trap` and
`return_to_user_mode` of `trap.cpp` store to it, and `invoke_sys_task_cap_set_reg`. `Machine` is the
core with the frames of its tasks. A task that comes back from a system call of its own passes the
end of `_user_trap`. One that runs for the first time starts in `return_to_user_mode`, as its context
says.
-/

set_option autoImplicit false

namespace Caprese

open Lib Prog

/-- `frame_t`, as the array of words that `set_register` sees. -/
abbrev Frame := Nat → UInt64

def ARCH_REG_A0 : Nat := 9
def ARCH_REG_A1 : Nat := 10
def ARCH_REG_SEPC : Nat := 31
def FRAME_SATP : Nat := 32
def FRAME_HARTID : Nat := 33
def FRAME_STACK : Nat := 34

/-- What `libcaprese` fixes, and the thread pointer of the kernel. -/
structure TrapConfig where
  lastRegister : Nat
  errorCode : SysError → UInt64
  tp : UInt64

/-- `sysret_t`. -/
structure Sysret where
  result : UInt64
  error : SysError
deriving DecidableEq, Repr

/-- `set_register`: the frame, and the old value. -/
def setRegister (lib : TrapConfig) (frame : Frame) (reg : Nat) (value : UInt64) : Frame × UInt64 :=
  if reg > lib.lastRegister then (frame, value) else (upd frame reg value, frame reg)

/-- `invoke_sys_task_cap_set_reg`, behind the checks of its capability. -/
def invokeSetReg (lib : TrapConfig) (k : Kernel) (frames : TaskPtr → Frame) (task : TaskPtr)
    (reg : Nat) (value : UInt64) : (TaskPtr → Frame) × Sysret :=
  if (k.tasks task).state ≠ .suspended then (frames, ⟨0, .eIllState⟩)
  else if reg > lib.lastRegister then (frames, ⟨0, .eIllArgs⟩)
  else
    let (frame, oldValue) := setRegister lib (frames task) reg value
    (upd frames task frame, ⟨oldValue, .sOk⟩)

/-- The registers that `user_trap` stores. -/
def trapEntry (regs frame : Frame) : Frame := fun r => if r ≤ ARCH_REG_SEPC then regs r else frame r

/-- The end of a system call in `_user_trap`. -/
def userTrapTail (lib : TrapConfig) (sysret : Sysret) (frame : Frame) : Frame :=
  let frame := upd frame ARCH_REG_A0 sysret.result
  let frame := upd frame ARCH_REG_A1 (lib.errorCode sysret.error)
  upd frame ARCH_REG_SEPC (frame ARCH_REG_SEPC + 4)

/-- `return_to_user_mode` on the frame of `task`. -/
def returnToUserMode (lib : TrapConfig) (task : TaskPtr) (frame : Frame) : Frame :=
  upd (upd frame FRAME_STACK (UInt64.ofNat (task + PAGE_SIZE))) FRAME_HARTID lib.tp

def SATP_MODE_SV39 : UInt64 := (0b1000 : UInt64) <<< 60

/-- The word that `arch_init_task` has for `satp`: the mode, and the number of the root table. -/
def satpWord (rootPageTable : TablePtr) : UInt64 :=
  SATP_MODE_SV39 ||| UInt64.ofNat (rootPageTable >>> PAGE_SIZE_BIT)

/-- The frame that `arch_init_task` gives a task. -/
def archInitTask (rootPageTable : TablePtr) : Frame :=
  upd (fun _ => 0) FRAME_SATP (satpWord rootPageTable)

/-- What a system call returns whose operation answered. A failed `switch` has its own error code,
the other operations leave one in `errno`. -/
def Op.sysret (op : Op) (answer : Bool) (k : Kernel) : Sysret :=
  if answer then ⟨0, .sOk⟩
  else
    match op with
    | .switchTo _ => ⟨0, .eIllState⟩
    | _ => ⟨0, k.errno⟩

/-- What the system call of a task returns that was switched in again. -/
def Resume.sysret (answer : Bool) (k : Kernel) : Sysret :=
  if answer then ⟨0, .sOk⟩ else ⟨0, k.errno⟩

/-- The frame of a task that was switched in and goes back to user mode. -/
def Resume.back (lib : TrapConfig) (task : TaskPtr) (sysret : Sysret) (frame : Frame) :
    Resume → Frame
  | .returnToUserMode => Caprese.returnToUserMode lib task frame
  | _ => Caprese.returnToUserMode lib task (userTrapTail lib sysret frame)

/-! ### The machine -/

structure Machine where
  core : Core
  frames : TaskPtr → Frame

namespace Machine

variable (m : Machine)

abbrev current : TaskPtr := m.core.kernel.currentTask

/-- The task runs in user mode. -/
def InUserMode (t : TaskPtr) : Prop := m.core.mode = .user ∧ m.current = t

instance (t : TaskPtr) : Decidable (m.InUserMode t) := inferInstanceAs (Decidable (_ ∧ _))

/-- The frames when the current task traps with the registers `regs`. -/
def entered (regs : Frame) : TaskPtr → Frame :=
  upd m.frames m.current (trapEntry regs (m.frames m.current))

end Machine

/-- A step of the machine, as a run tells it. -/
inductive Deed where
  | invoke (op : Op) (regs : Frame)
  /-- The current task sets a register of a task. -/
  | setReg (task : TaskPtr) (reg : Nat) (value : UInt64) (regs : Frame) (sysret : Sysret)
  | resume
  | store (memory : PhysAddr → UInt8)

/-- One step. An operation that returns passes the end of `_user_trap`, and one that does not leaves
the frame as the trap stored it. -/
inductive MachineStep (lib : TrapConfig) (env : Env) (m : Machine) : Deed → Machine → Prop
  | returned {op : Op} {regs : Frame} {answer : Bool} {core : Core}
      (step : CoreStep env m.core (.invoke op, some answer) core) :
      MachineStep lib env m (.invoke op regs) ⟨core, upd (m.entered regs) core.kernel.currentTask
        (returnToUserMode lib core.kernel.currentTask (userTrapTail lib
          (op.sysret answer core.kernel) (m.entered regs core.kernel.currentTask)))⟩
  | left {op : Op} {regs : Frame} {core : Core}
      (step : CoreStep env m.core (.invoke op, none) core) :
      MachineStep lib env m (.invoke op regs) ⟨core, m.entered regs⟩
  | setReg {task : TaskPtr} {reg : Nat} {value : UInt64} {regs : Frame}
      {frames : TaskPtr → Frame} {sysret : Sysret} (user : m.core.mode = .user)
      (target : task ≠ m.core.kernel.idleTask)
      (run : invokeSetReg lib m.core.kernel (m.entered regs) task reg value = (frames, sysret)) :
      MachineStep lib env m (.setReg task reg value regs sysret) ⟨m.core, upd frames m.current
        (returnToUserMode lib m.current (userTrapTail lib sysret (frames m.current)))⟩
  | back {answer : Bool} {core : Core} (step : CoreStep env m.core (.resume, some answer) core) :
      MachineStep lib env m .resume ⟨core, upd m.frames core.kernel.currentTask
        ((m.core.kernel.tasks m.current).context.back lib core.kernel.currentTask
          (Resume.sysret answer core.kernel) (m.frames core.kernel.currentTask))⟩
  | passedOn {core : Core} (step : CoreStep env m.core (.resume, none) core) :
      MachineStep lib env m .resume ⟨core, m.frames⟩
  | store {memory : PhysAddr → UInt8} {core : Core}
      (step : CoreStep env m.core (.store memory, none) core) :
      MachineStep lib env m (.store memory) ⟨core, m.frames⟩

/-! ### Steps, computed -/

section Compute

variable (lib : TrapConfig) (env : Env)

/-- The step that a deed makes. -/
def Machine.next (m : Machine) : Deed → Option Machine
  | .invoke op regs =>
    match m.core.invoke env op with
    | some (some answer, core) =>
      some ⟨core, upd (m.entered regs) core.kernel.currentTask
        (returnToUserMode lib core.kernel.currentTask (userTrapTail lib
          (op.sysret answer core.kernel) (m.entered regs core.kernel.currentTask)))⟩
    | some (none, core) => some ⟨core, m.entered regs⟩
    | none => none
  | .setReg task reg value regs sysret =>
    let (frames, sysret') := invokeSetReg lib m.core.kernel (m.entered regs) task reg value
    if m.core.mode = .user ∧ task ≠ m.core.kernel.idleTask ∧ sysret' = sysret then
      some ⟨m.core, upd frames m.current
        (returnToUserMode lib m.current (userTrapTail lib sysret (frames m.current)))⟩
    else none
  | .resume =>
    match m.core.goOn env with
    | some (some answer, core) =>
      some ⟨core, upd m.frames core.kernel.currentTask
        ((m.core.kernel.tasks m.current).context.back lib core.kernel.currentTask
          (Resume.sysret answer core.kernel) (m.frames core.kernel.currentTask))⟩
    | some (none, core) => some ⟨core, m.frames⟩
    | none => none
  | .store memory =>
    if m.core.mode = .user then
      some ⟨{ m.core with kernel := { m.core.kernel with memory := memory } }, m.frames⟩
    else none

variable {lib env}

theorem machineStep_of_next {m m' : Machine} {deed : Deed} (h : m.next lib env deed = some m') :
    MachineStep lib env m deed m' := by
  cases deed with
  | invoke op regs =>
    unfold Machine.next at h
    dsimp only at h
    split at h
    · rename_i answer core hinvoke
      obtain rfl := Option.some.inj h
      exact .returned (step_of_invoke hinvoke)
    · rename_i core hinvoke
      obtain rfl := Option.some.inj h
      exact .left (step_of_invoke hinvoke)
    · exact nomatch h
  | setReg task reg value regs sysret =>
    unfold Machine.next at h
    dsimp only at h
    split at h
    · rename_i hok
      obtain rfl := Option.some.inj h
      exact .setReg hok.1 hok.2.1 (Prod.ext rfl hok.2.2)
    · exact nomatch h
  | resume =>
    unfold Machine.next at h
    dsimp only at h
    split at h
    · rename_i answer core hgo
      obtain rfl := Option.some.inj h
      exact .back (step_of_goOn hgo)
    · rename_i core hgo
      obtain rfl := Option.some.inj h
      exact .passedOn (step_of_goOn hgo)
    · exact nomatch h
  | store memory =>
    unfold Machine.next at h
    dsimp only at h
    split at h
    · rename_i huser
      obtain rfl := Option.some.inj h
      exact .store (.store huser)
    · exact nomatch h

end Compute

end Caprese
