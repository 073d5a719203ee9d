import Caprese.Kernel.Task

/-!
# `Caprese.Kernel.Cap`: objects and their capabilities

The functions of `cap.h` and `cap.cpp`: the constructors of capabilities, the creation of
objects out of memory, their destruction, and the maps of tables and pages.

A `capability_t&` to a member of the union is a reader that fails on every other type,
as the assertion in front of it does, and a store into the slot.
-/

set_option autoImplicit false

namespace Caprese

open Lib Prog

/-! ### Members of the union -/

def memoryCap (slot : SlotPtr) : K MemoryCap := do
  match (← get).cap slot with
  | .memory cap => return cap
  | _ => stop .assertFailed

def taskCap (slot : SlotPtr) : K TaskCap := do
  match (← get).cap slot with
  | .task cap => return cap
  | _ => stop .assertFailed

def endpointCap (slot : SlotPtr) : K EndpointCap := do
  match (← get).cap slot with
  | .endpoint cap => return cap
  | _ => stop .assertFailed

def pageTableCap (slot : SlotPtr) : K PageTableCap := do
  match (← get).cap slot with
  | .pageTable cap => return cap
  | _ => stop .assertFailed

def virtPageCap (slot : SlotPtr) : K VirtPageCap := do
  match (← get).cap slot with
  | .virtPage cap => return cap
  | _ => stop .assertFailed

def capSpaceCap (slot : SlotPtr) : K CapSpaceCap := do
  match (← get).cap slot with
  | .capSpace cap => return cap
  | _ => stop .assertFailed

def idCap (slot : SlotPtr) : K IdCap := do
  match (← get).cap slot with
  | .id cap => return cap
  | _ => stop .assertFailed

def storeCap (slot : SlotPtr) (cap : Capability) : K Unit := modify fun k => k.setCap slot cap

/-- Stores into the `page_table` member. -/
def modifyPageTableCap (slot : SlotPtr) (f : PageTableCap → PageTableCap) : K Unit := do
  match (← get).cap slot with
  | .pageTable cap => storeCap slot (.pageTable (f cap))
  | _ => pure ()

/-! ### Constructors -/

def makeMemoryCap (device : Bool) (size baseAddr : Nat) : K Capability := do
  kassert (baseAddr < CONFIG_MAX_PHYSICAL_ADDRESS)
  kassert (size < CONFIG_MAX_PHYSICAL_ADDRESS)
  return .memory
    { device := device
      size := size % CONFIG_MAX_PHYSICAL_ADDRESS
      physAddr := baseAddr % CONFIG_MAX_PHYSICAL_ADDRESS
      usedSize := 0 }

/-- With all flags set, as every caller passes them. -/
def makeTaskCap (task : TaskPtr) : Capability :=
  .task ⟨true, true, true, true, true, true, true, task⟩

def makeEndpointCap (endpoint : EndpointPtr) : Capability := .endpoint ⟨true, true, endpoint⟩

def makePageTableCap (pageTable : TablePtr) (mapped : Bool) (level virtAddrBase : Nat)
    (parentTable : Option TablePtr) : K Capability := do
  kassert (mapped = false ∨ virtAddrBase % getPageSize (level + 1) = 0)
  kassert (mapped = false ∨ level = MAX_PAGE_TABLE_LEVEL ∨ parentTable ≠ none)
  return .pageTable
    { mapped := mapped
      level := level % 4
      virtAddrBase := virtAddrBase % CONFIG_MAX_VIRTUAL_ADDRESS
      table := pageTable
      parentTable := parentTable }

def makeVirtPageCap (device readable writable executable mapped : Bool)
    (level physAddr virtAddr : Nat) (parentTable : Option TablePtr) : K Capability := do
  kassert (physAddr < CONFIG_MAX_PHYSICAL_ADDRESS)
  kassert (level ≤ MAX_PAGE_TABLE_LEVEL)
  return .virtPage
    { mapped := mapped
      device := device
      readable := readable
      writable := writable
      executable := executable
      level := level % 4
      index := getPageTableIndex virtAddr level
      physAddr := physAddr % CONFIG_MAX_PHYSICAL_ADDRESS
      address := virtAddr
      parentTable := parentTable }

def makeCapSpaceCap (capSpace : SpacePtr) (used : Bool) : Capability :=
  .capSpace ⟨used, capSpace⟩

def makeIdCap (val1 val2 val3 : Nat) : K Capability := do
  kassert (val1 < 2 ^ 59)
  return .id ⟨val1 % 2 ^ 59, val2, val3⟩

/-- The counter behind `make_unique_id_cap`, of which the last word runs fastest. -/
def succId : Nat × Nat × Nat → Nat × Nat × Nat
  | (val1, val2, val3) =>
    if val3 = 2 ^ 64 - 1 then
      if val2 = 2 ^ 64 - 1 then ((val1 + 1) % 2 ^ 64, 0, 0) else (val1, val2 + 1, 0)
    else (val1, val2, val3 + 1)

def makeUniqueIdCap : K Capability := do
  let (val1, val2, val3) := (← get).nextId
  modify fun k => { k with nextId := succId k.nextId }
  makeIdCap val1 val2 val3

/-! ### Creation -/

/-- The assertion that the destination of a new object is unused. -/
def checkUnused (slot : SlotPtr) : K Unit := do
  kassert (((← get).slots slot).isUnused = true)

def createMemoryObject (dst src : SlotPtr) (size alignment : Nat) : K (Option SlotPtr) := do
  let memCap ← memoryCap src
  checkUnused dst
  if size = 0 then
    setErrno .eIllArgs
    return none
  let baseAddr := roundUp (memCap.physAddr + memCap.usedSize) alignment
  -- `phys_addr + size - base_addr` on 64-bit values: wraps around if the base lies behind.
  let remSize := (memCap.physAddr + memCap.size + 2 ^ 64 - baseAddr) % 2 ^ 64
  if remSize < size then
    setErrno .eCapState
    return none
  storeCap dst (← makeMemoryCap memCap.device size baseAddr)
  let usedSize :=
    (baseAddr + size + 2 ^ 64 - memCap.physAddr) % 2 ^ 64 % CONFIG_MAX_PHYSICAL_ADDRESS
  storeCap src (.memory { memCap with usedSize := usedSize })
  insertAfter src dst
  return some dst

/-- The check of all objects that the kernel itself stores into: no device memory. -/
def createKernelObject (dst src : SlotPtr) (size alignment : Nat) : K (Option PhysAddr) := do
  let memCap ← memoryCap src
  checkUnused dst
  if memCap.device then
    setErrno .eCapState
    return none
  match ← createMemoryObject dst src size alignment with
  | none => return none
  | some dst => return some (← memoryCap dst).physAddr

/-- An assertion of `create_task_object`: the slot holds a page table that is not mapped. -/
def unmappedTable (slot : Option SlotPtr) : K SlotPtr := do
  kassert (slot ≠ none)
  let slot ← deref slot
  let pageTable ← pageTableCap slot
  kassert (pageTable.mapped = false)
  return slot

/-- What `create_task_object` stores into the capability of a table that it gives to the
task. -/
def PageTableCap.adopt (cap : PageTableCap) (level virtAddrBase : Nat) : PageTableCap :=
  { cap with level := level, mapped := true, virtAddrBase := virtAddrBase }

def createTaskObject (dst src capSpaceSlot rootPageTableSlot : SlotPtr)
    (pageTableSlot0 pageTableSlot1 : Option SlotPtr) : K (Option SlotPtr) := do
  let _ ← memoryCap src
  checkUnused dst
  let capSpace ← capSpaceCap capSpaceSlot
  let rootPageTableSlot ← unmappedTable (some rootPageTableSlot)
  let pageTableSlot0 ← unmappedTable pageTableSlot0
  let pageTableSlot1 ← unmappedTable pageTableSlot1
  let rootPageTable ← pageTableCap rootPageTableSlot
  let pageTable0 ← pageTableCap pageTableSlot0
  let pageTable1 ← pageTableCap pageTableSlot1
  match ← createKernelObject dst src PAGE_SIZE PAGE_SIZE with
  | none => return none
  | some task =>
    modify fun k => k.setTask task Task.zero
    initTask task capSpace.space rootPageTable.table pageTable0.table pageTable1.table
    storeCap dst (makeTaskCap task)
    modifyPageTableCap rootPageTableSlot (·.adopt MAX_PAGE_TABLE_LEVEL 0)
    modifyPageTableCap pageTableSlot0 (·.adopt 0 CONFIG_CAPABILITY_SPACE_BASE)
    modifyPageTableCap pageTableSlot1 (·.adopt 1 CONFIG_CAPABILITY_SPACE_BASE)
    return some dst

def createEndpointObject (dst src : SlotPtr) : K (Option SlotPtr) := do
  match ← createKernelObject dst src ENDPOINT_SIZE ENDPOINT_SIZE with
  | none => return none
  | some endpoint =>
    modify fun k => { k with
      endpoints := upd k.endpoints endpoint ⟨⟨none, none⟩, ⟨none, none⟩⟩ }
    storeCap dst (makeEndpointCap endpoint)
    return some dst

def createPageTableObject (dst src : SlotPtr) : K (Option SlotPtr) := do
  match ← createKernelObject dst src PAGE_SIZE PAGE_SIZE with
  | none => return none
  | some pageTable =>
    modify fun k => k.zeroTable pageTable
    storeCap dst (← makePageTableCap pageTable false 0 0 none)
    return some dst

def createVirtPageObject (dst src : SlotPtr) (readable writable executable : Bool)
    (level : Nat) : K (Option SlotPtr) := do
  let _ ← memoryCap src
  checkUnused dst
  if level > MAX_PAGE_TABLE_LEVEL then
    setErrno .eIllArgs
    return none
  match ← createMemoryObject dst src (getPageSize level) (getPageSize level) with
  | none => return none
  | some dst =>
    let memCap ← memoryCap dst
    storeCap dst (← makeVirtPageCap memCap.device readable writable executable false level
      memCap.physAddr 0 none)
    return some dst

def createCapSpaceObject (dst src : SlotPtr) : K (Option SlotPtr) := do
  match ← createKernelObject dst src PAGE_SIZE PAGE_SIZE with
  | none => return none
  | some capSpace =>
    modify fun k => k.zeroCapSpace capSpace
    storeCap dst (makeCapSpaceCap capSpace false)
    return some dst

def createIdObject (dst : SlotPtr) : K (Option SlotPtr) := do
  checkUnused dst
  storeCap dst (← makeUniqueIdCap)
  return some dst

/-- One turn of the loop over the tables of the new capability space: the slot that is
found, and whether the loop goes on. The `break` on an error only leaves this loop. -/
def lookupTable (task : TaskPtr) (capDesc : Nat) : K (Option SlotPtr × Bool) := do
  match ← lookupCap task capDesc with
  | none =>
    setErrno .eIllArgs
    return (none, false)
  | some slot =>
    match (← get).cap slot with
    | .pageTable pageTable =>
      if pageTable.mapped then
        setErrno .eCapState
        return (some slot, false)
      else return (some slot, true)
    | _ =>
      setErrno .eCapType
      return (some slot, false)

def createTask (task : TaskPtr) (slot capSlot : SlotPtr) (args : List Nat) :
    K (Option SlotPtr) := do
  match ← lookupCap task (args.getD 0 0) with
  | none =>
    setErrno .eIllArgs
    return none
  | some capSpaceSlot =>
    if getCapType ((← get).cap capSpaceSlot) ≠ .capSpace then
      setErrno .eCapType
      return none
    match ← lookupCap task (args.getD 1 0) with
    | none =>
      setErrno .eIllArgs
      return none
    | some rootPageTableSlot =>
      match (← get).cap rootPageTableSlot with
      | .pageTable rootPageTable =>
        if rootPageTable.mapped then
          setErrno .eCapState
          return none
        let (slot0, more) ← lookupTable task (args.getD 2 0)
        let (slot1, _) ← if more then lookupTable task (args.getD 3 0) else pure (none, false)
        createTaskObject slot capSlot capSpaceSlot rootPageTableSlot slot0 slot1
      | _ =>
        setErrno .eCapType
        return none

/-- The `switch` of `create_object`. -/
def createObjectOf (task : TaskPtr) (slot capSlot : SlotPtr) (type : CapType)
    (args : List Nat) : K (Option SlotPtr) :=
  match type with
  | .mem => createMemoryObject slot capSlot (args.getD 0 0) (args.getD 1 0)
  | .task => createTask task slot capSlot args
  | .endpoint => createEndpointObject slot capSlot
  | .pageTable => createPageTableObject slot capSlot
  | .virtPage => createVirtPageObject slot capSlot (args.getD 0 0 ≠ 0) (args.getD 1 0 ≠ 0)
      (args.getD 2 0 ≠ 0) (args.getD 3 0)
  | .capSpace => createCapSpaceObject slot capSlot
  | _ => pure none

def createObject (task : TaskPtr) (capSlot : SlotPtr) (type : CapType) (args : List Nat) :
    K (Option SlotPtr) := do
  kassert (task = (← get).currentTask)
  if getCapType ((← get).cap capSlot) ≠ .mem then
    setErrno .eCapType
    return none
  if isDead ((← get).tasks task) then
    setErrno .eIllState
    return none
  match ← popFreeSlots task with
  | none =>
    setErrno .eOutOfCapSpace
    return none
  | some slot =>
    match ← createObjectOf task slot capSlot type args with
    | none =>
      pushFreeSlots task slot
      return none
    | some result => return some result

/-- `invoke_sys_id_cap_create`. -/
def idCapCreate : K (Option SlotPtr) := do
  let task := (← get).currentTask
  match ← popFreeSlots task with
  | none => return none
  | some slot => createIdObject slot

/-! ### Objects of slots -/

/-- Skips the zombies in front of a delegated capability. -/
def skipZombies (slot : SlotPtr) : K SlotPtr :=
  kloop (fun slot => do
    if getCapType ((← get).cap slot) = .zombie then
      return .inl (← deref ((← get).slots slot).next)
    else return .inr slot) slot

/-- Whether two capabilities of a copyable type name one object. -/
def sameObject : Capability → Capability → Bool
  | .task lhs, .task rhs => lhs.task = rhs.task
  | .endpoint lhs, .endpoint rhs => lhs.endpoint = rhs.endpoint
  | .id lhs, .id rhs => lhs.val1 = rhs.val1 && lhs.val2 = rhs.val2 && lhs.val3 = rhs.val3
  | _, _ => false

def isSameObject (lhs rhs : SlotPtr) : K Bool := do
  let lhs ← skipZombies lhs
  let rhs ← skipZombies rhs
  if lhs = rhs then return true
  return sameObject ((← get).cap lhs) ((← get).cap rhs)

/-- The assertion of the destructors: no later slot holds the same object. -/
def checkLast (slot : SlotPtr) : K Unit := do
  match ((← get).slots slot).next with
  | none => pure ()
  | some next => do
    let same ← isSameObject slot next
    kassert (same = false)

def destroyMemoryObject (slot : SlotPtr) : K Unit := do
  kassert (((← get).slots slot).isTail = true)
  let memCap ← memoryCap slot
  storeCap slot (.memory { memCap with usedSize := 0 })

def destroyTaskObject (slot : SlotPtr) : K Unit := do
  checkLast slot
  let cap ← taskCap slot
  modify fun k => k.record (.destroyTask cap.task)
  killTask cap.task 0

def destroyEndpointObject (slot : SlotPtr) : K Unit := do
  checkLast slot
  let cap ← endpointCap slot
  modify fun k => k.record (.destroyEndpoint cap.endpoint)
  ipcCancel cap.endpoint

/-- The end of the destructors of tables and pages: clears the entry that maps the object. -/
def clearEntry (parentTable : Option TablePtr) (va level : Nat) (object : PhysAddr) :
    K Unit := do
  match parentTable with
  | none => pure ()
  | some table =>
    let index ← pageTableWalk va level
    kassert (((← get).pte table index).isEnabled = true)
    kassert (((← get).pte table index).getNextPage = object)
    modify fun k => k.setPte table index (k.pte table index).disable

def destroyPageTableObject (slot : SlotPtr) : K Unit := do
  checkLast slot
  let cap ← pageTableCap slot
  clearEntry cap.parentTable cap.virtAddrBase (cap.level + 1) cap.table

def destroyVirtPageObject (slot : SlotPtr) : K Unit := do
  checkLast slot
  let cap ← virtPageCap slot
  clearEntry cap.parentTable cap.address cap.level cap.physAddr

def destroyCapSpaceObject (slot : SlotPtr) : K Unit := do
  checkLast slot
  let _ ← capSpaceCap slot

def destroyIdObject (slot : SlotPtr) : K Unit := do
  checkLast slot
  let _ ← idCap slot

end Caprese
