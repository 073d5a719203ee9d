import Caprese.Lib.Queue
import Mathlib.Algebra.Group.Nat.Defs

/-!
# `Caprese.Kernel.Types`: the kernel's data

The capabilities of `include/kernel/cap.h`, the slots and capability spaces of
`cap_space.h`, the tasks of `task.h`, the endpoints of `ipc.h`, the page tables of
`arch/page.h`, and the state of one core that runs the kernel on them, for the `sv39`
configuration that both platforms select.

A `map_ptr<T>` is the physical address it maps, and a null pointer is `none`. The objects of
one type are a store keyed by address. A slot pointer is the address of its capability
space, to which `get_cap_space` rounds down, and the index in `slots`. Bitfields are `Nat`
with the reduction written where a value is stored.

`K` is the monad of kernel code. A run stops at a failed assertion, at a `panic`, at a null
dereference, when a loop exceeds `Config.loopBound`, or when it gives the processor to
another task (`Stop.switched`). The kernel state is kept in each case.
-/

set_option autoImplicit false

namespace Caprese

open Lib

/-! ### Configuration -/

abbrev PAGE_SIZE_BIT : Nat := 12
abbrev PAGE_SIZE : Nat := 4096
abbrev NUM_PAGE_TABLE_ENTRY : Nat := 512
abbrev NUM_INTER_PAGE_TABLE : Nat := 1
abbrev KILO_PAGE_TABLE_LEVEL : Nat := 0
abbrev MEGA_PAGE_TABLE_LEVEL : Nat := 1
abbrev GIGA_PAGE_TABLE_LEVEL : Nat := 2
abbrev MAX_PAGE_TABLE_LEVEL : Nat := 2
abbrev CONFIG_MAX_PHYSICAL_ADDRESS : Nat := 2 ^ 36
abbrev CONFIG_MAX_VIRTUAL_ADDRESS : Nat := 2 ^ 38
abbrev CONFIG_KERNEL_SPACE_BASE : Nat := 2 ^ 37
abbrev CONFIG_MAPPED_SPACE_BASE : Nat := 2 ^ 37
abbrev CONFIG_MAPPED_SPACE_SIZE : Nat := 2 ^ 36
abbrev CONFIG_CAPABILITY_SPACE_BASE : Nat := 2 ^ 37 + 2 ^ 36

/-- `std::size(cap_space_t::slots)`: a page of 40-byte slots, one of them given to `meta_info`. -/
abbrev NUM_SLOTS : Nat := PAGE_SIZE / 40 - 1

/-- `get_page_size`. -/
def getPageSize (level : Nat) : Nat := PAGE_SIZE * 2 ^ (9 * level)

/-- `get_page_table_index`. -/
def getPageTableIndex (va level : Nat) : Nat := va / 2 ^ (PAGE_SIZE_BIT + 9 * level) % 512

/-- `round_up` on 64-bit values: the sum may wrap around. -/
def roundUp (value align : Nat) : Nat :=
  if align = 0 then value else (value + align - 1) % 2 ^ 64 / align * align

/-! ### Pointers -/

/-- A physical address, and the `map_ptr` to what lies there. -/
abbrev PhysAddr := Nat

abbrev TaskPtr := PhysAddr
abbrev EndpointPtr := PhysAddr
abbrev SpacePtr := PhysAddr
abbrev TablePtr := PhysAddr

/-- A `map_ptr<cap_slot_t>`. -/
structure SlotPtr where
  space : SpacePtr
  index : Nat
deriving DecidableEq, Repr

/-! ### Capabilities -/

/-- `cap_type_t`. -/
inductive CapType where
  | null | mem | task | endpoint | pageTable | virtPage | capSpace | id | zombie | unknown
deriving DecidableEq, Repr

structure MemoryCap where
  device : Bool
  size : Nat
  physAddr : Nat
  usedSize : Nat
deriving DecidableEq, Repr

structure TaskCap where
  killable : Bool
  switchable : Bool
  suspendable : Bool
  resumable : Bool
  registerGettable : Bool
  registerSettable : Bool
  killNotifiable : Bool
  task : TaskPtr
deriving DecidableEq, Repr

structure EndpointCap where
  sendable : Bool
  receivable : Bool
  endpoint : EndpointPtr
deriving DecidableEq, Repr

structure PageTableCap where
  mapped : Bool
  level : Nat
  virtAddrBase : Nat
  table : TablePtr
  parentTable : Option TablePtr
deriving DecidableEq, Repr

structure VirtPageCap where
  mapped : Bool
  device : Bool
  readable : Bool
  writable : Bool
  executable : Bool
  level : Nat
  index : Nat
  physAddr : Nat
  address : Nat
  parentTable : Option TablePtr
deriving DecidableEq, Repr

structure CapSpaceCap where
  used : Bool
  space : SpacePtr
deriving DecidableEq, Repr

structure IdCap where
  val1 : Nat
  val2 : Nat
  val3 : Nat
deriving DecidableEq, Repr

/-- `capability_t`: the union, tagged by its `type` field. -/
inductive Capability where
  | null
  | memory (cap : MemoryCap)
  | task (cap : TaskCap)
  | endpoint (cap : EndpointCap)
  | pageTable (cap : PageTableCap)
  | virtPage (cap : VirtPageCap)
  | capSpace (cap : CapSpaceCap)
  | id (cap : IdCap)
  | zombie
deriving DecidableEq, Repr

/-- `get_cap_type`. -/
def getCapType : Capability → CapType
  | .null => .null
  | .memory _ => .mem
  | .task _ => .task
  | .endpoint _ => .endpoint
  | .pageTable _ => .pageTable
  | .virtPage _ => .virtPage
  | .capSpace _ => .capSpace
  | .id _ => .id
  | .zombie => .zombie

/-- `get_cap_size(CAP_ENDPOINT)`, the one object size that is not a page size. -/
abbrev ENDPOINT_SIZE : Nat := 64

structure CapSlot where
  cap : Capability
  prev : Option SlotPtr
  next : Option SlotPtr
deriving DecidableEq, Repr

/-- `cap_space_t::meta_info`. -/
structure MetaInfo where
  task : Option TaskPtr
  spaceIndex : Nat
deriving DecidableEq, Repr

/-! ### Tasks and endpoints -/

inductive TaskState where
  | unused | running | ready | waiting | suspended | killed
deriving DecidableEq, Repr

inductive IpcState where
  | none | sending | receiving | calling | canceled
deriving DecidableEq, Repr

inductive EventType where
  | none | send | kill
deriving DecidableEq, Repr

inductive IpcMsgState where
  | empty | shortSize | longSize
deriving DecidableEq, Repr

/-- Where a task that is switched in continues: what its saved `context_t` and its kernel
stack stand for. -/
inductive Resume where
  | returnToUserMode
  /-- Behind `resched()` in `ipc_send_short` or `ipc_send_long`. -/
  | ipcSend
  /-- Behind `resched()` in `ipc_receive`. -/
  | ipcReceive
  /-- Behind `resched()` in `ipc_call`. -/
  | ipcCall
  /-- Behind `switch_context` in `switch_task`, in a system call that then succeeds. -/
  | switchTask
  /-- Behind `resched()` in `ipc_send_kill_notify`, in the middle of `kill_task(task)`. -/
  | killNotify (task : PhysAddr)
  /-- Behind `resched()` in `kill_task` on itself: `std::unreachable`. -/
  | unreachable
  /-- Behind `resched()` in `yield` or in `suspend_task` on itself. -/
  | yielded
  /-- The loop of `idle`. -/
  | idle
deriving DecidableEq, Repr

structure CapCount where
  numCapSpace : Nat
  numExtension : Nat
deriving DecidableEq, Repr

/-- `task_t`. `ipcMsg` is the union of `ipc_short_msg` and `ipc_long_msg`, six words. -/
structure Task where
  context : Resume
  tid : Nat
  capCount : CapCount
  prevReadyTask : Option TaskPtr
  nextReadyTask : Option TaskPtr
  prevWaitingTask : Option TaskPtr
  nextWaitingTask : Option TaskPtr
  callerTask : Option TaskPtr
  calleeTask : Option TaskPtr
  freeSlots : Option SlotPtr
  freeSlotsCount : Nat
  rootPageTable : TablePtr
  endpoint : Option EndpointPtr
  killNotify : Option EndpointPtr
  ipcMsg : List Nat
  state : TaskState
  ipcState : IpcState
  ipcMsgState : IpcMsgState
  eventType : EventType
  exitStatus : Int
deriving DecidableEq, Repr

/-- `task_queue_t`. -/
abbrev TaskQueue := Queue TaskPtr

/-- `endpoint_t`. -/
structure Endpoint where
  senderQueue : TaskQueue
  receiverQueue : TaskQueue
deriving DecidableEq, Repr

/-! ### Page tables -/

structure PteFlags where
  readable : Bool
  writable : Bool
  executable : Bool
  user : Bool
  global : Bool
deriving DecidableEq, Repr

/-- `pte_t`. -/
structure Pte where
  v : Bool
  r : Bool
  w : Bool
  x : Bool
  u : Bool
  g : Bool
  a : Bool
  d : Bool
  nextPageNumber : Nat
deriving DecidableEq, Repr

namespace Pte

def enable (e : Pte) : Pte := { e with v := true }

def disable (e : Pte) : Pte := { e with v := false }

def isEnabled (e : Pte) : Bool := e.v

def isDisabled (e : Pte) : Bool := !e.v

def isTable (e : Pte) : Bool := e.v && !e.r && !e.w && !e.x && !e.u && !e.g

def isUser (e : Pte) : Bool := e.v && e.u

def setFlags (e : Pte) (flags : PteFlags) : Pte :=
  { e with r := flags.readable, w := flags.writable, x := flags.executable,
           u := flags.user, g := flags.global }

def setNextPage (e : Pte) (nextPage : PhysAddr) : Pte :=
  { e with nextPageNumber := nextPage / 2 ^ PAGE_SIZE_BIT % 2 ^ 44, a := true, d := true }

def getNextPage (e : Pte) : PhysAddr := e.nextPageNumber * 2 ^ PAGE_SIZE_BIT

end Pte

/-! ### The kernel state -/

/-- The error codes that the kernel leaves in `errno`. -/
inductive SysError where
  | sOk | eUnknown | eIllCode | eIllArgs | eIllState | eOutOfCapSpace | eCapType | eCapState
  | eCanceled | eBlocked
deriving DecidableEq, Repr

/-- What a run did. The history is read by no function of the kernel. -/
inductive Event where
  /-- `insert_cap_space` entered a space at an index of a task's capability space. -/
  | attach (task : TaskPtr) (index : Nat) (space : SpacePtr)
  /-- `destroy_task_object` called `kill_task`. -/
  | destroyTask (task : TaskPtr)
  /-- `destroy_endpoint_object` called `ipc_cancel`. -/
  | destroyEndpoint (endpoint : EndpointPtr)
  /-- `ipc_transfer_ipc_msg` handed a message over. -/
  | deliver (dst src : TaskPtr)
deriving DecidableEq, Repr

structure Kernel where
  slots : SlotPtr → CapSlot
  capSpaces : SpacePtr → MetaInfo
  tasks : TaskPtr → Task
  endpoints : EndpointPtr → Endpoint
  pageTables : TablePtr → Nat → Pte
  memory : PhysAddr → UInt8
  readyQueue : TaskQueue
  currentTask : TaskPtr
  idleTask : TaskPtr
  nextId : Nat × Nat × Nat
  curTid : Nat
  errno : SysError
  trace : List Event

/-- Why kernel code stopped before its end. -/
inductive Stop where
  | assertFailed
  | panic
  | nullDeref
  | diverged
  /-- The processor went to another task. -/
  | switched
deriving DecidableEq, Repr

/-- `message_header`, whose layout `libcaprese` fixes. -/
structure MessageHeader where
  msgType : Nat
  senderId : Nat
  receiverId : Nat
  payloadCapacity : Nat
  payloadLength : Nat
  dataTypeMap : List Nat
deriving DecidableEq, Repr

/-- Parameters of a run: how often a loop may turn before the model gives up on it, and what
the headers of `libcaprese` fix. -/
structure Config where
  loopBound : Nat
  kiloPage : Nat
  messageHeaderSize : Nat
  decodeHeader : List UInt8 → MessageHeader
  encodeHeader : MessageHeader → List UInt8
  msgTypeIpc : Nat
  msgTypeKill : Nat

/-- The build: `ndebug` compiles the assertions out. -/
structure Env where
  ndebug : Bool
  config : Config

/-- The build with assertions. -/
@[reducible] def Env.debug (config : Config) : Env := ⟨false, config⟩

/-- Kernel code. -/
abbrev K := Prog Env Stop Kernel

/-- `assert`. -/
def kassert (p : Prop) [Decidable p] : K Unit := do
  if (← Prog.ask).ndebug then pure ()
  else if p then pure () else Prog.stop .assertFailed

/-- A pointer that is dereferenced. -/
def deref {α : Type} (p : Option α) : K α :=
  match p with
  | some a => pure a
  | none => Prog.stop .nullDeref

def setErrno (e : SysError) : K Unit := Prog.modify fun k => { k with errno := e }

/-- `while` with a bound on the turns. -/
def kloop {α β : Type} (body : α → K (α ⊕ β)) (a : α) : K β := do
  Prog.loop .diverged body (← Prog.ask).config.loopBound a

section Rules

open Prog

variable {cfg : Config} {α : Type} {E : Stop → Kernel → Prop} {k : Kernel}

@[simp] theorem wp_kassert (p : Prop) [Decidable p] {Q : Unit → Kernel → Prop} :
    wp (kassert p) (.debug cfg) Q E k ↔ (if p then Q () k else E .assertFailed k) := by
  unfold kassert
  simp

/-- An assertion that holds is passed in every build. -/
theorem wp_kassert_holds {p : Prop} [Decidable p] {env : Env} {Q : Unit → Kernel → Prop} (hp : p)
    (hQ : Q () k) : wp (kassert p) env Q E k := by
  unfold kassert
  rw [wp_bind, wp_ask, wp_ite, wp_ite, if_pos hp]
  split <;> exact hQ

/-- What is left of an assertion where a stop is no loss. -/
theorem wp_kassert_any {p : Prop} [Decidable p] {env : Env} {Q : Unit → Kernel → Prop}
    (h : Q () k) : wp (kassert p) env Q (fun _ _ => True) k := by
  unfold kassert
  rw [wp_bind, wp_ask, wp_ite, wp_ite]
  split
  · exact h
  · split
    · exact h
    · trivial

@[simp] theorem wp_deref (p : Option α) {Q : α → Kernel → Prop} {env : Env} :
    wp (deref p) env Q E k ↔
      match p with
      | some a => Q a k
      | none => E .nullDeref k := by
  cases p <;> rfl

/-- The loop rule, with the bound on the turns charged to `E`. -/
theorem wp_kloop {β : Type} {env : Env} {body : α → K (α ⊕ β)} {a : α}
    {Q : β → Kernel → Prop} (I : α → Kernel → Prop) (hI : I a k)
    (hE : ∀ k', E .diverged k')
    (hbody : ∀ a' k', I a' k' → wp (body a') env
      (fun c k'' => match c with | .inl a'' => I a'' k'' | .inr b => Q b k'') E k') :
    wp (kloop body a) env Q E k := by
  unfold kloop
  rw [wp_bind, wp_ask]
  exact wp_loop I (fun _ k' _ => hE k') hbody _ _ _ hI

/-- The loop rule, with turns enough for all that is left to do. -/
theorem wp_kloop_within {β : Type} {env : Env} {body : α → K (α ⊕ β)} {a : α}
    {Q : β → Kernel → Prop} (μ : α → Nat) (I : α → Kernel → Prop) (hI : I a k)
    (hbound : μ a < env.config.loopBound)
    (hbody : ∀ a' k', I a' k' → wp (body a') env
      (fun c k'' => match c with | .inl a'' => I a'' k'' ∧ μ a'' < μ a' | .inr b => Q b k'') E
      k') : wp (kloop body a) env Q E k := by
  unfold kloop
  rw [wp_bind, wp_ask]
  exact wp_loop_within μ I hbody _ _ _ hI hbound

/-- Two loops agree if their bodies do at each entry. -/
theorem kloop_agree {β : Type} {env : Env} {body body' : α → K (α ⊕ β)} {a : α}
    (I : α → Kernel → Prop) (hI : I a k)
    (hbody : ∀ a' k', I a' k' → body a' env k' = body' a' env k' ∧ wp (body a') env
      (fun c k'' => match c with | .inl a'' => I a'' k'' | .inr _ => True) (fun _ _ => True) k') :
    kloop body a env k = kloop body' a env k :=
  bind_agree rfl (loop_agree I hbody _ _ _ hI)

/-- Postconditions of a stop that only speak about `Stop.switched`. -/
def Fatal (E : Stop → Kernel → Prop) : Prop := ∀ e k, e ≠ .switched → E e k

@[simp] theorem wp_setErrno (e : SysError) {Q : Unit → Kernel → Prop} {env : Env} :
    wp (setErrno e) env Q E k ↔ Q () { k with errno := e } := Iff.rfl

end Rules

end Caprese
