import Caprese.Kernel.Cap

/-!
# `Caprese.Kernel.Boot`: from power-on to the root task

`setup` of `start.cpp`, which builds the root task with its capabilities and mappings and the
idle task out of what the linker and the device tree provide. The blocks of memory that
`setup_memory_capabilities` cuts out of the regions of the device tree are given as a list,
and so is the memory behind `get_boot_info`. What `setup` writes into `root_boot_info` for
the root task to read is left out.
-/

set_option autoImplicit false

namespace Caprese

open Lib Prog

/-- A block of physical memory. -/
structure Region where
  start : PhysAddr
  size : Nat
deriving DecidableEq, Repr

/-- A block that becomes a memory capability. -/
structure MemoryRegion extends Region where
  device : Bool
deriving DecidableEq, Repr

/-- What `map_root_task` maps, and the tables that it maps it with. -/
structure RootMapping where
  base : Nat
  region : Region
  pageTable0 : TablePtr
  pageTable1 : TablePtr
  executable : Bool
deriving DecidableEq, Repr

/-- `boot_info_t`, with the first capability space apart. -/
structure BootInfo where
  rootTask : TaskPtr
  rootPageTable : TablePtr
  capSpace : SpacePtr
  capSpaces : List SpacePtr
  capSpacePageTable0 : TablePtr
  capSpacePageTable1 : TablePtr
  memories : List MemoryRegion
  payload : RootMapping
  stack : RootMapping
  dtb : Region
  idleTask : TaskPtr
  idleRootPageTable : TablePtr
deriving DecidableEq, Repr

/-- The kernel's memory before `setup`, all zero. -/
def Kernel.powerOn : Kernel where
  slots _ := ⟨.null, none, none⟩
  capSpaces _ := ⟨none, 0⟩
  tasks _ := Task.zero
  endpoints _ := ⟨⟨none, none⟩, ⟨none, none⟩⟩
  pageTables _ _ := Pte.zero
  memory _ := 0
  readyQueue := ⟨none, none⟩
  currentTask := 0
  idleTask := 0
  nextId := (0, 0, 0)
  curTid := 0
  errno := .sOk
  trace := []

/-- `insert_cap` and the panic behind it. -/
def insertRootCap (task : TaskPtr) (cap : Capability) : K Unit := do
  if (← insertCap task cap) = none then stop .panic

def setupRootTask (boot : BootInfo) : K Unit := do
  let task := boot.rootTask
  modify fun k => { k with currentTask := task }
  initTask task boot.capSpace boot.rootPageTable boot.capSpacePageTable0 boot.capSpacePageTable1
  forM (fun space => do if (← insertCapSpace task space) = false then stop .panic) boot.capSpaces
  insertRootCap task (makeTaskCap task)
  forM (fun space => insertRootCap task (makeCapSpaceCap space true))
    (boot.capSpace :: boot.capSpaces)
  insertRootCap task (← makePageTableCap boot.rootPageTable true MAX_PAGE_TABLE_LEVEL 0 none)
  insertRootCap task (← makePageTableCap boot.capSpacePageTable0 true 0
    CONFIG_CAPABILITY_SPACE_BASE (some boot.capSpacePageTable1))
  insertRootCap task (← makePageTableCap boot.capSpacePageTable1 true 1
    CONFIG_CAPABILITY_SPACE_BASE (some boot.rootPageTable))

/-- `setup_memory_capabilities`, from the blocks on. -/
def setupMemoryCapabilities (boot : BootInfo) : K Unit :=
  forM (fun block => do
    insertRootCap boot.rootTask (← makeMemoryCap block.device block.size block.start))
    boot.memories

/-- One turn of the loop of `map_root_task` over the tables: `level` is that of the entry. -/
def mapRootTable (boot : BootInfo) (va level : Nat) (pageTable nextPageTable : TablePtr) :
    K Unit := do
  let index ← pageTableWalk va level
  kassert (((← get).pte pageTable index).isDisabled = true)
  modify fun k => k.setPte pageTable index
    (((k.pte pageTable index).setNextPage nextPageTable).enable)
  let virtAddrBase := va / getPageSize level * getPageSize level
  insertRootCap boot.rootTask
    (← makePageTableCap nextPageTable true (level - 1) virtAddrBase (some pageTable))

/-- One turn of the loops that map the pages of the root task. -/
def mapRootPage (boot : BootInfo) (pageTable : TablePtr) (flags : PteFlags)
    (va : Nat) (page : PhysAddr) : K Unit := do
  let index ← pageTableWalk va KILO_PAGE_TABLE_LEVEL
  kassert (((← get).pte pageTable index).isDisabled = true)
  modify fun k => k.setPte pageTable index ((k.pte pageTable index).fill flags page)
  insertRootCap boot.rootTask (← makeVirtPageCap false flags.readable flags.writable
    flags.executable true KILO_PAGE_TABLE_LEVEL page va (some pageTable))

/-- The number of turns of a loop over the pages of a region. -/
def Region.numPages (region : Region) : Nat := (region.size + PAGE_SIZE - 1) / PAGE_SIZE

def mapRootTask (boot : BootInfo) (mapping : RootMapping) : K Unit := do
  modify fun k => (k.zeroTable mapping.pageTable0).zeroTable mapping.pageTable1
  mapRootTable boot mapping.base GIGA_PAGE_TABLE_LEVEL boot.rootPageTable mapping.pageTable1
  mapRootTable boot mapping.base MEGA_PAGE_TABLE_LEVEL mapping.pageTable1 mapping.pageTable0
  forM (fun i => mapRootPage boot mapping.pageTable0 (.userPage true true mapping.executable)
      (mapping.base + PAGE_SIZE * i) (mapping.region.start + PAGE_SIZE * i))
    (List.range mapping.region.numPages)

/-- The part of `setup_arch_root_boot_info` that maps the device tree behind the payload. -/
def mapRootDtb (boot : BootInfo) : K Unit :=
  forM (fun i => mapRootPage boot boot.payload.pageTable0 (.userPage true false false)
      (boot.payload.base + boot.payload.region.size + PAGE_SIZE * i)
      (boot.dtb.start + PAGE_SIZE * i))
    (List.range boot.dtb.numPages)

def setupIdleTask (boot : BootInfo) : K Unit := do
  modify fun k => { k with idleTask := boot.idleTask }
  initIdleTask boot.idleTask boot.idleRootPageTable

def setup (boot : BootInfo) : K Unit := do
  setupRootTask boot
  setupMemoryCapabilities boot
  mapRootTask boot boot.payload
  mapRootTask boot boot.stack
  mapRootDtb boot
  setupIdleTask boot

end Caprese
