import Caprese.Kernel.Call
import Caprese.Kernel.Frame

/-!
# `Caprese.Kernel.Syscall`: the system calls

`invoke_syscall` and the tables of `ns_*.h`. A system call looks up the capabilities that its
arguments name, checks their types and their flags, and then does one thing: it answers, it is
refused, or it asks for an operation on tasks and endpoints (`Op`), for a call on capabilities
(`Call`), or for a register of a task. `Syscall.resolve` is the part up to there, and `Request` is
what it comes to.

`SystemStep` is the core with the frames of its tasks, where each step into the kernel is a system
call with its arguments in registers.
-/

set_option autoImplicit false

namespace Caprese

open Lib Prog

/-- The entries of the tables of `ns_*.h`. -/
inductive Syscall where
  | systemNull | systemCoreId | systemPageSize | systemUserSpaceStart | systemUserSpaceEnd
  | systemCapsPerCapSpace | systemYield | systemCapSize | systemCapAlign
  | archMmuMode
  | capType | capCopy | capRevoke | capDestroy | capSame
  | memCapDevice | memCapPhysAddr | memCapSize | memCapUsedSize | memCapCreateObject
  | taskCapTid | taskCapKillable | taskCapSwitchable | taskCapSuspendable | taskCapResumable
  | taskCapKill | taskCapSwitch | taskCapSuspend | taskCapResume | taskCapGetReg | taskCapSetReg
  | taskCapTransferCap | taskCapDelegateCap | taskCapGetFreeSlotCount | taskCapGetCapSpaceCount
  | taskCapGetCapSpaceExtCount | taskCapInsertCapSpace | taskCapExtendCapSpace
  | taskCapSetKillNotify
  | endpointCapSendShort | endpointCapSendLong | endpointCapReceive | endpointCapReply
  | endpointCapNbSendShort | endpointCapNbSendLong | endpointCapNbReceive | endpointCapCall
  | endpointCapReplyAndReceive
  | pageTableCapMapped | pageTableCapLevel | pageTableCapMapTable | pageTableCapUnmapTable
  | pageTableCapMapPage | pageTableCapUnmapPage | pageTableCapRemapPage
  | pageTableCapVirtAddrBase
  | virtPageCapMapped | virtPageCapReadable | virtPageCapWritable | virtPageCapExecutable
  | virtPageCapLevel | virtPageCapPhysAddr | virtPageCapVirtAddr
  | idCapCreate | idCapCompare
deriving DecidableEq, Repr

/-- What `libcaprese` and the platform fix: the numbers of the system calls and of the types of
capabilities, and the answers that are constants. -/
structure Abi where
  /-- The entry of a namespace and an index, where the tables have one. -/
  syscall : Nat → Nat → Option Syscall
  capType : Nat → CapType
  capTypeCode : CapType → Nat
  coreId : Nat
  mmuMode : Nat
  userSpaceBase : Nat
  userSpaceSize : Nat

def ARCH_REG_A7 : Nat := 16

/-- `syscall_args_t`. -/
structure SyscallArgs where
  args : Nat → UInt64
  code : UInt64

/-- `get_syscall_args`. -/
def getSyscallArgs (frame : Frame) : SyscallArgs where
  args i := frame (ARCH_REG_A0 + i)
  code := frame ARCH_REG_A7

/-- `get_cap_size`. -/
def getCapSize : CapType → Nat
  | .task | .pageTable | .virtPage | .capSpace => PAGE_SIZE
  | .endpoint => ENDPOINT_SIZE
  | .null | .mem | .id | .zombie => 0
  | .unknown => 2 ^ 64 - 1

/-- `get_cap_align`. -/
def getCapAlign : CapType → Nat
  | .task | .pageTable | .virtPage | .capSpace => PAGE_SIZE
  | .endpoint => 8
  | .mem => 1
  | .null | .id | .zombie => 0
  | .unknown => 2 ^ 64 - 1

/-- `static_cast<int>`. -/
def toInt (value : UInt64) : Int := (BitVec.ofNat 32 value.toNat).toInt

/-- What a system call comes to, behind its lookups and checks. -/
inductive Request where
  | answer (result : Nat)
  | refuse (error : SysError)
  | op (op : Op)
  | call (call : Call)
  | getReg (task : TaskPtr) (reg : Nat)
  | setReg (task : TaskPtr) (reg : Nat) (value : UInt64)
deriving DecidableEq, Repr

namespace Request

def ofBool (b : Bool) : Request := .answer b.toNat

/-- `errno_to_sysret`. -/
def errnoToSysret : K Request := do return .refuse (← get).errno

end Request

open Request

/-! ### Lookups -/

/-- The slot of a descriptor of the current task. -/
def withSlot (capDesc : UInt64) (body : SlotPtr → K Request) : K Request := do
  match ← lookupCap (← get).currentTask capDesc.toNat with
  | none => errnoToSysret
  | some slot => body slot

/-- A slot that must hold a capability of `type`: a failure leaves the error in `errno`, as in
`lookup_mem_cap` and its siblings. -/
def withCap (type : CapType) (capDesc : UInt64) (body : SlotPtr → K Request) : K Request :=
  withSlot capDesc fun slot => do
    if getCapType ((← get).cap slot) ≠ type then
      setErrno .eCapType
      errnoToSysret
    else body slot

/-- A slot that must hold a capability of `type`: a failure is answered at once. -/
def withArg (type : CapType) (capDesc : UInt64) (body : SlotPtr → K Request) : K Request :=
  withSlot capDesc fun slot => do
    if getCapType ((← get).cap slot) ≠ type then return .refuse .eCapType
    else body slot

/-- `lookup_mem_cap`. -/
def withMemCap (args : SyscallArgs) (body : SlotPtr → MemoryCap → K Request) : K Request :=
  withCap .mem (args.args 0) fun slot => do body slot (← memoryCap slot)

/-- `lookup_task_cap`. -/
def withTaskCap (args : SyscallArgs) (body : SlotPtr → TaskCap → K Request) : K Request :=
  withCap .task (args.args 0) fun slot => do body slot (← taskCap slot)

/-- `lookup_endpoint_cap`. -/
def withEndpointCap (args : SyscallArgs) (body : EndpointCap → K Request) : K Request :=
  withCap .endpoint (args.args 0) fun slot => do body (← endpointCap slot)

/-- `lookup_page_table_cap`. -/
def withPageTableCap (args : SyscallArgs) (body : SlotPtr → PageTableCap → K Request) :
    K Request :=
  withCap .pageTable (args.args 0) fun slot => do body slot (← pageTableCap slot)

/-- `lookup_virt_page_cap`. -/
def withVirtPageCap (args : SyscallArgs) (body : VirtPageCap → K Request) : K Request :=
  withCap .virtPage (args.args 0) fun slot => do body (← virtPageCap slot)

/-- A further descriptor, which the function behind the call checks. -/
def lookupArg (capDesc : UInt64) : K (Option SlotPtr) := do
  lookupCap (← get).currentTask capDesc.toNat

/-! ### The calls on tasks -/

/-- The calls that one flag of the capability allows. -/
def withRight (right : TaskCap → Bool) (args : SyscallArgs) (body : TaskPtr → Request) :
    K Request :=
  withTaskCap args fun _ cap =>
    if right cap = false then pure (.refuse .eCapState) else pure (body cap.task)

/-- The calls on the registers of a suspended task. -/
def withRegister (lib : TrapConfig) (right : TaskCap → Bool) (args : SyscallArgs)
    (body : TaskPtr → Nat → Request) : K Request :=
  withTaskCap args fun _ cap => do
    if right cap = false then return .refuse .eCapState
    else if ((← get).tasks cap.task).state ≠ .suspended then return .refuse .eIllState
    else if (args.args 1).toNat > lib.lastRegister then return .refuse .eIllArgs
    else return body cap.task (args.args 1).toNat

/-- `invoke_sys_task_cap_transfer_cap` and `invoke_sys_task_cap_delegate_cap`. -/
def giveCap (call : TaskPtr → SlotPtr → Call) (args : SyscallArgs) : K Request :=
  withTaskCap args fun _ cap => do
    if ((← get).tasks cap.task).state ≠ .suspended then return .refuse .eIllState
    else withSlot (args.args 1) fun slot => pure (.call (call cap.task slot))

/-- The flags of `args`, from the argument `i` on. -/
def SyscallArgs.flag (args : SyscallArgs) (i : Nat) : Bool := args.args i ≠ 0

/-- The six words of a short message. -/
def SyscallArgs.shortMsg (args : SyscallArgs) : List Nat :=
  [1, 2, 3, 4, 5, 6].map fun i => (args.args i).toNat

/-! ### The table -/

/-- The functions of the tables, up to what they ask for. -/
def Syscall.resolve (lib : TrapConfig) (abi : Abi) (args : SyscallArgs) : Syscall → K Request
  | .systemNull => pure (.answer 0)
  | .systemCoreId => pure (.answer abi.coreId)
  | .systemPageSize => pure (.answer PAGE_SIZE)
  | .systemUserSpaceStart => pure (.answer abi.userSpaceBase)
  | .systemUserSpaceEnd => pure (.answer (abi.userSpaceBase + abi.userSpaceSize))
  | .systemCapsPerCapSpace => pure (.answer NUM_SLOTS)
  | .systemYield => pure (.op .yield)
  | .systemCapSize =>
    if (args.args 0).toNat > abi.capTypeCode .zombie then pure (.refuse .eIllArgs)
    else pure (.answer (getCapSize (abi.capType (args.args 0).toNat)))
  | .systemCapAlign =>
    if (args.args 0).toNat > abi.capTypeCode .zombie then pure (.refuse .eIllArgs)
    else pure (.answer (getCapAlign (abi.capType (args.args 0).toNat)))
  | .archMmuMode => pure (.answer abi.mmuMode)
  | .capType => do
    match ← lookupArg (args.args 0) with
    | none =>
      if (← get).errno = .sOk then return .answer (abi.capTypeCode .null) else errnoToSysret
    | some slot => return .answer (abi.capTypeCode (getCapType ((← get).cap slot)))
  | .capCopy => withSlot (args.args 0) fun slot => pure (.call (.copyCap slot))
  | .capRevoke => withSlot (args.args 0) fun slot => pure (.call (.revokeCap slot))
  | .capDestroy => withSlot (args.args 0) fun slot => pure (.call (.destroyCap slot))
  | .capSame => withSlot (args.args 0) fun lhs => withSlot (args.args 1) fun rhs => do
    return .ofBool (← isSameCap lhs rhs)
  | .memCapDevice => withMemCap args fun _ cap => pure (.ofBool cap.device)
  | .memCapPhysAddr => withMemCap args fun _ cap => pure (.answer cap.physAddr)
  | .memCapSize => withMemCap args fun _ cap => pure (.answer cap.size)
  | .memCapUsedSize => withMemCap args fun _ cap => pure (.answer cap.usedSize)
  | .memCapCreateObject => withMemCap args fun slot _ =>
    pure (.call (.createObject slot (abi.capType (args.args 1).toNat)
      ([2, 3, 4, 5, 6].map fun i => (args.args i).toNat)))
  | .taskCapTid => withTaskCap args fun _ cap => do
    return .answer ((← get).tasks cap.task).tid
  | .taskCapKillable => withTaskCap args fun _ cap => pure (.ofBool cap.killable)
  | .taskCapSwitchable => withTaskCap args fun _ cap => pure (.ofBool cap.switchable)
  | .taskCapSuspendable => withTaskCap args fun _ cap => pure (.ofBool cap.suspendable)
  | .taskCapResumable => withTaskCap args fun _ cap => pure (.ofBool cap.resumable)
  | .taskCapKill => withRight (·.killable) args fun task => .op (.kill task (toInt (args.args 1)))
  | .taskCapSwitch => withRight (·.switchable) args fun task => .op (.switchTo task)
  | .taskCapSuspend => withRight (·.suspendable) args fun task => .op (.suspend task)
  | .taskCapResume => withRight (·.resumable) args fun task => .op (.resume task)
  | .taskCapGetReg => withRegister lib (·.registerGettable) args .getReg
  | .taskCapSetReg => withRegister lib (·.registerSettable) args fun task reg =>
    .setReg task reg (args.args 2)
  | .taskCapTransferCap => giveCap .transferCap args
  | .taskCapDelegateCap => giveCap .delegateCap args
  | .taskCapGetFreeSlotCount => withTaskCap args fun _ cap => do
    return .answer ((← get).tasks cap.task).freeSlotsCount
  | .taskCapGetCapSpaceCount => withTaskCap args fun _ cap => do
    return .answer ((← get).tasks cap.task).capCount.numCapSpace
  | .taskCapGetCapSpaceExtCount => withTaskCap args fun _ cap => do
    return .answer ((← get).tasks cap.task).capCount.numExtension
  | .taskCapInsertCapSpace => withTaskCap args fun slot _ =>
    withArg .capSpace (args.args 1) fun capSpace => pure (.call (.insertCapSpace slot capSpace))
  | .taskCapExtendCapSpace => withTaskCap args fun slot _ =>
    withArg .pageTable (args.args 1) fun pageTable => pure (.call (.extendCapSpace slot pageTable))
  | .taskCapSetKillNotify => withTaskCap args fun _ cap =>
    withArg .endpoint (args.args 1) fun slot => do
      return .op (.setKillNotify cap.task (← endpointCap slot).endpoint)
  | .endpointCapSendShort => withEndpointCap args fun cap =>
    pure (.op (.sendShort true cap.endpoint args.shortMsg))
  | .endpointCapSendLong => withEndpointCap args fun cap =>
    pure (.op (.sendLong true cap.endpoint (args.args 1).toNat))
  | .endpointCapReceive => withEndpointCap args fun cap =>
    pure (.op (.receive true cap.endpoint (args.args 1).toNat))
  | .endpointCapReply => withEndpointCap args fun cap =>
    pure (.op (.reply cap.endpoint (args.args 1).toNat))
  | .endpointCapNbSendShort => withEndpointCap args fun cap =>
    pure (.op (.sendShort false cap.endpoint args.shortMsg))
  | .endpointCapNbSendLong => withEndpointCap args fun cap =>
    pure (.op (.sendLong false cap.endpoint (args.args 1).toNat))
  | .endpointCapNbReceive => withEndpointCap args fun cap =>
    pure (.op (.receive false cap.endpoint (args.args 1).toNat))
  | .endpointCapCall => withEndpointCap args fun cap =>
    pure (.op (.call cap.endpoint (args.args 1).toNat))
  | .endpointCapReplyAndReceive => withEndpointCap args fun cap =>
    pure (.op (.replyAndReceive cap.endpoint (args.args 1).toNat))
  | .pageTableCapMapped => withPageTableCap args fun _ cap => pure (.ofBool cap.mapped)
  | .pageTableCapLevel => withPageTableCap args fun _ cap =>
    if cap.mapped = false then pure (.refuse .eCapState) else pure (.answer cap.level)
  | .pageTableCapMapTable => withPageTableCap args fun slot _ => do
    let child ← lookupArg (args.args 2)
    return .call (.mapPageTable slot (args.args 1).toNat child)
  | .pageTableCapUnmapTable => withPageTableCap args fun slot _ => do
    let child ← lookupArg (args.args 2)
    return .call (.unmapPageTable slot (args.args 1).toNat child)
  | .pageTableCapMapPage => withPageTableCap args fun slot _ => do
    let virtPage ← lookupArg (args.args 5)
    return .call (.mapVirtPage slot (args.args 1).toNat virtPage (args.flag 2) (args.flag 3)
      (args.flag 4))
  | .pageTableCapUnmapPage => withPageTableCap args fun slot _ => do
    let virtPage ← lookupArg (args.args 2)
    return .call (.unmapVirtPage slot (args.args 1).toNat virtPage)
  | .pageTableCapRemapPage => withPageTableCap args fun slot _ => do
    let virtPage ← lookupArg (args.args 5)
    let oldPageTable ← lookupArg (args.args 6)
    return .call (.remapVirtPage slot (args.args 1).toNat virtPage (args.flag 2) (args.flag 3)
      (args.flag 4) oldPageTable)
  | .pageTableCapVirtAddrBase => withPageTableCap args fun _ cap =>
    if cap.mapped = false then pure (.refuse .eCapState) else pure (.answer cap.virtAddrBase)
  | .virtPageCapMapped => withVirtPageCap args fun cap => pure (.ofBool cap.mapped)
  | .virtPageCapReadable => withVirtPageCap args fun cap => pure (.ofBool cap.readable)
  | .virtPageCapWritable => withVirtPageCap args fun cap => pure (.ofBool cap.writable)
  | .virtPageCapExecutable => withVirtPageCap args fun cap => pure (.ofBool cap.executable)
  | .virtPageCapLevel => withVirtPageCap args fun cap => pure (.answer cap.level)
  | .virtPageCapPhysAddr => withVirtPageCap args fun cap => pure (.answer cap.physAddr)
  | .virtPageCapVirtAddr => withVirtPageCap args fun cap =>
    if cap.mapped = false then pure (.refuse .eCapState) else pure (.answer cap.address)
  | .idCapCreate => pure (.call .createId)
  | .idCapCompare => withArg .id (args.args 0) fun lhs => withArg .id (args.args 1) fun rhs => do
    return .answer (UInt64.ofInt (← compareIdCap lhs rhs)).toNat

/-- `invoke_syscall`, up to what the system call asks for. -/
def resolve (lib : TrapConfig) (abi : Abi) (args : SyscallArgs) : K Request :=
  match abi.syscall (args.code.toNat / 2 ^ 16 % 2 ^ 16) (args.code.toNat % 2 ^ 16) with
  | none => pure (.refuse .eIllCode)
  | some syscall => syscall.resolve lib abi args

/-! ### Answers -/

/-- `sysret_s_ok`. -/
def sysretSOk (result : Nat) : Sysret := ⟨UInt64.ofNat result, .sOk⟩

/-- What a request returns that asks for no operation. -/
def Request.sysret (frames : TaskPtr → Frame) : Request → Option Sysret
  | .answer result => some (sysretSOk result)
  | .refuse error => some ⟨0, error⟩
  | .getReg task reg => some ⟨frames task reg, .sOk⟩
  | _ => none

/-- What a call on capabilities returns. -/
def Answer.sysret (k : Kernel) : Answer → Sysret
  | .slot (some y) =>
    sysretSOk (NUM_SLOTS * (k.capSpaces y.space).spaceIndex + y.index)
  | .slot none => ⟨0, k.errno⟩
  | .bool true => sysretSOk 0
  | .bool false => ⟨0, k.errno⟩

/-! ### The system -/

/-- What the current task does, or the one that was switched in. -/
inductive Action where
  /-- A system call with the registers `regs`, what it asked for, and what a call on capabilities
  answered, unless it took the processor from the task. -/
  | syscall (regs : Frame) (request : Request) (answer : Option Answer)
  | resume
  | store (memory : PhysAddr → UInt8)

/-- The build with assertions, and what it is linked with. -/
structure SystemConfig where
  config : Config
  lib : TrapConfig
  abi : Abi

/-- The part of `invoke_syscall` up to the request, in the state of a trap. -/
def Machine.resolves (sys : SystemConfig) (m : Machine) (regs : Frame) (request : Request)
    (k : Kernel) : Prop :=
  m.core.mode = .user ∧
    Caprese.resolve sys.lib sys.abi (getSyscallArgs (m.entered regs m.current))
      (.debug sys.config) m.core.kernel = .ok request k

/-- The current task comes back from its system call. -/
def Machine.back (lib : TrapConfig) (m : Machine) (regs : Frame) (sysret : Sysret)
    (k : Kernel) : Machine :=
  ⟨⟨k, .user⟩, upd (m.entered regs) m.current
    (returnToUserMode lib m.current (userTrapTail lib sysret (m.entered regs m.current)))⟩

/-- The machine with another kernel state. -/
def Machine.withKernel (m : Machine) (k : Kernel) : Machine := { m with core.kernel := k }

/-- The machine with the frames that `init_task` leaves, of the tasks that are in use in `k` and
were not before. -/
def Machine.started (m : Machine) (k : Kernel) : Machine :=
  { m with
    frames := fun t =>
      if (m.core.kernel.tasks t).state = .unused ∧ (k.tasks t).state ≠ .unused then
        archInitTask (k.tasks t).rootPageTable
      else m.frames t }

/-- One step of the system. A call takes the processor from its task for good where it destroys the
task. A notice that is sent in the middle of a call is none of these steps: the call goes on behind
it. -/
inductive SystemStep (sys : SystemConfig) (m : Machine) : Action → Machine → Prop
  | answered {regs : Frame} {request : Request} {k : Kernel} {sysret : Sysret}
      (resolved : m.resolves sys regs request k)
      (answer : request.sysret (m.entered regs) = some sysret) :
      SystemStep sys m (.syscall regs request none) (m.back sys.lib regs sysret k)
  | op {regs : Frame} {op : Op} {k : Kernel} {m' : Machine}
      (resolved : m.resolves sys regs (.op op) k)
      (step : MachineStep sys.lib (.debug sys.config) (m.withKernel k) (.invoke op regs) m') :
      SystemStep sys m (.syscall regs (.op op) none) m'
  | setReg {regs : Frame} {task : TaskPtr} {reg : Nat} {value : UInt64} {k : Kernel}
      {sysret : Sysret} {m' : Machine} (resolved : m.resolves sys regs (.setReg task reg value) k)
      (step : MachineStep sys.lib (.debug sys.config) (m.withKernel k)
        (.setReg task reg value regs sysret) m') :
      SystemStep sys m (.syscall regs (.setReg task reg value) none) m'
  | call {regs : Frame} {call : Call} {k k' : Kernel} {answer : Answer}
      (resolved : m.resolves sys regs (.call call) k)
      (step : Step sys.config k ⟨k.currentTask, call⟩ (some answer) k') :
      SystemStep sys m (.syscall regs (.call call) (some answer))
        ((m.started k').back sys.lib regs (answer.sysret k') k')
  | killed {regs : Frame} {call : Call} {k k' : Kernel}
      (resolved : m.resolves sys regs (.call call) k)
      (step : Step sys.config k ⟨k.currentTask, call⟩ none k')
      (dead : (k'.tasks k.currentTask).state = .killed) :
      SystemStep sys m (.syscall regs (.call call) none) ⟨⟨k', .kernel⟩, m.entered regs⟩
  | resume {m' : Machine} (step : MachineStep sys.lib (.debug sys.config) m .resume m') :
      SystemStep sys m .resume m'
  | store {memory : PhysAddr → UInt8} {m' : Machine}
      (step : MachineStep sys.lib (.debug sys.config) m (.store memory) m') :
      SystemStep sys m (.store memory) m'

/-- A run of the system in which every action meets the condition `ok` in the state in which it is
made. -/
abbrev SystemRun (sys : SystemConfig) (ok : Machine → Action → Prop) :
    Machine → List Action → Machine → Prop :=
  Steps fun m act m' => ok m act ∧ SystemStep sys m act m'

/-- The machine in which `start` lets the root task run: `setup` left the kernel in the state `k`,
the frames `frames` apart from those of the two tasks, and `setup_root_task_payload` set the
registers `values` of the root task. -/
def startMachine (lib : TrapConfig) (boot : BootInfo) (values : List (Nat × UInt64))
    (frames : TaskPtr → Frame) (k : Kernel) : Machine :=
  let frame := values.foldl (fun frame v => (setRegister lib frame v.1 v.2).1)
    (archInitTask boot.rootPageTable)
  ⟨⟨k, .user⟩, upd (upd frames boot.idleTask (archInitTask boot.idleRootPageTable)) boot.rootTask
    (returnToUserMode lib boot.rootTask frame)⟩

/-! ### Steps, computed -/

/-- The system call that the registers ask for. -/
def Machine.trap (sys : SystemConfig) (m : Machine) (regs : Frame) : Option (Action × Machine) :=
  if m.core.mode = .user then
    match Caprese.resolve sys.lib sys.abi (getSyscallArgs (m.entered regs m.current))
        (.debug sys.config) m.core.kernel with
    | .ok (.op o) k =>
      ((m.withKernel k).next sys.lib (.debug sys.config) (.invoke o regs)).map fun m' =>
        (.syscall regs (.op o) none, m')
    | .ok (.call c) k =>
      match Turn.next sys.config ⟨k.currentTask, c⟩ k with
      | some (some a, k') =>
        some (.syscall regs (.call c) (some a),
          (m.started k').back sys.lib regs (a.sysret k') k')
      | some (none, k') =>
        if (k'.tasks k.currentTask).state = .killed then
          some (.syscall regs (.call c) none, ⟨⟨k', .kernel⟩, m.entered regs⟩)
        else none
      | none => none
    | .ok request k =>
      (request.sysret (m.entered regs)).map fun sysret =>
        (.syscall regs request none, m.back sys.lib regs sysret k)
    | .stop _ _ => none
  else none

theorem systemStep_of_trap {sys : SystemConfig} {m m' : Machine} {regs : Frame} {act : Action}
    (h : m.trap sys regs = some (act, m')) : SystemStep sys m act m' := by
  unfold Machine.trap at h
  split at h
  · rename_i huser
    split at h
    · rename_i k hresolve
      obtain ⟨m₁, hnext, heq⟩ := Option.map_eq_some_iff.mp h
      obtain ⟨rfl, rfl⟩ := Prod.mk.inj heq
      exact .op ⟨huser, hresolve⟩ (machineStep_of_next hnext)
    · rename_i k hresolve
      split at h
      · rename_i k' hnext
        obtain ⟨rfl, rfl⟩ := Prod.mk.inj (Option.some.inj h)
        exact .call ⟨huser, hresolve⟩ (step_of_next hnext)
      · rename_i k' hnext
        split at h
        · rename_i hdead
          obtain ⟨rfl, rfl⟩ := Prod.mk.inj (Option.some.inj h)
          exact .killed ⟨huser, hresolve⟩ (step_of_next hnext) hdead
        · exact absurd h (by simp)
      · exact absurd h (by simp)
    · rename_i hresolve
      obtain ⟨sysret, hsysret, heq⟩ := Option.map_eq_some_iff.mp h
      obtain ⟨rfl, rfl⟩ := Prod.mk.inj heq
      exact .answered ⟨huser, hresolve⟩ hsysret
    · exact absurd h (by simp)
  · exact absurd h (by simp)

end Caprese
