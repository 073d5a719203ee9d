import Caprese.Kernel.Boot
import Caprese.Lib.Spans

/-!
# `Caprese.Kernel.Setup`: the memory capabilities of the root task

`setup.cpp`: `setup_memory_capabilities` collects the `reg` ranges of the device tree, rounds
those of the devices, takes the reserved ones out and cuts what is left into naturally aligned
blocks of two to some power. The nodes are those that `for_each_dtb_node` calls back for, in its
order, with what `for_each_reg` reads out of their `reg` property. The descriptors that
`root_boot_info` gets are left out. The functions return the capabilities that they created.
-/

set_option autoImplicit false

namespace Caprese.Setup

open Lib Prog

/-! ### Regions -/

/-- `a - b`. -/
def subtractRegion (a b : Span) : Span × Span :=
  if a.start < b.start then
    if a.stop ≤ b.start then (a, ⟨0, 0⟩)
    else if a.stop ≤ b.stop then (⟨a.start, b.start⟩, ⟨0, 0⟩)
    else (⟨a.start, b.start⟩, ⟨b.stop, a.stop⟩)
  else if b.stop < a.stop then
    if b.stop ≤ a.start then (a, ⟨0, 0⟩)
    else (⟨b.stop, a.stop⟩, ⟨0, 0⟩)
  else (⟨0, 0⟩, ⟨0, 0⟩)

/-- `CONFIG_MAX_RESERVED_REGIONS`, `CONFIG_MAX_MEMORY_REGIONS` and `CONFIG_MAX_DEVICE_REGIONS` of
the platform. -/
structure RegionLimits where
  reserved : Nat
  memory : Nat
  device : Nat
deriving DecidableEq, Repr

/-- `reserved_region`, `memory_region` and `device_region`. -/
structure RegionTables where
  reserved : List Span
  memory : List Span
  device : List Span
deriving DecidableEq, Repr

variable (limits : RegionLimits)

def pushReservedRegion (tables : RegionTables) (region : Span) : K RegionTables := do
  if tables.reserved.length ≥ limits.reserved then stop .panic
  return { tables with reserved := tables.reserved ++ [region] }

def pushMemoryRegion (tables : RegionTables) (region : Span) : K RegionTables := do
  if tables.memory.length ≥ limits.memory then stop .panic
  return { tables with memory := tables.memory ++ [region] }

/-- A region up to the end of its last page. -/
def roundRegion (region : Span) : Span := ⟨region.start, roundUp region.stop PAGE_SIZE⟩

def pushDeviceRegion (tables : RegionTables) (region : Span) : K RegionTables := do
  if tables.device.length ≥ limits.device then stop .panic
  return { tables with device := tables.device ++ [roundRegion region] }

/-! ### The device tree -/

/-- A node of the device tree. `reg` has the base and the size of every range. -/
structure DtbNode where
  name : String
  sizeCells : Nat
  reg : List Region
deriving DecidableEq, Repr

inductive NodeKind where
  | skipped
  | reserved
  | memory
  | device
deriving DecidableEq, Repr

/-- What becomes of the `reg` property of a node. -/
def DtbNode.kind (node : DtbNode) : NodeKind :=
  if node.name = "partitions" then .skipped
  else if node.sizeCells = 0 then .skipped
  else if node.name.toList.take 10 = "mmode_resv".toList then .reserved
  else if node.name = "memory" then .memory
  else .device

/-- The region of a range of `for_each_reg`. -/
def regRegion (reg : Region) : Span := ⟨reg.start, (reg.start + reg.size) % 2 ^ 64⟩

/-- `for_each_reg`. -/
def forEachReg (push : RegionTables → Span → K RegionTables) :
    List Region → RegionTables → K RegionTables
  | [], tables => return tables
  | reg :: regs, tables => do forEachReg push regs (← push tables (regRegion reg))

/-- The callback of `for_each_dtb_node`. -/
def pushNode (node : DtbNode) (tables : RegionTables) : K RegionTables :=
  match node.kind with
  | .skipped => return tables
  | .reserved => forEachReg (pushReservedRegion limits) node.reg tables
  | .memory => forEachReg (pushMemoryRegion limits) node.reg tables
  | .device => forEachReg (pushDeviceRegion limits) node.reg tables

def pushNodes : List DtbNode → RegionTables → K RegionTables
  | [], tables => return tables
  | node :: nodes, tables => do pushNodes nodes (← pushNode limits node tables)

/-! ### Blocks -/

/-- A block of `1 << size_bit` bytes. -/
structure Block where
  start : PhysAddr
  sizeBit : Nat
deriving DecidableEq, Repr

def Block.span (block : Block) : Span := ⟨block.start, block.start + 2 ^ block.sizeBit⟩

/-- The first loop of `insert_memory_region_caps`: its blocks, and the region and the `size_bit`
that it leaves. A start other than zero has a bit among the 64, so that the loop is over by then. -/
def risingBlocks : Nat → Nat → Span → List Block × Nat × Span
  | 0, sizeBit, region => ([], sizeBit, region)
  | bits + 1, sizeBit, region =>
    if region.start < region.stop then
      if region.start.testBit sizeBit then
        if region.stop - region.start ≥ 2 ^ sizeBit then
          let (blocks, rest) := risingBlocks bits (sizeBit + 1)
            ⟨region.start + 2 ^ sizeBit, region.stop⟩
          (⟨region.start, sizeBit⟩ :: blocks, rest)
        else ([], sizeBit, region)
      else risingBlocks bits (sizeBit + 1) region
    else ([], sizeBit, region)

/-- The second loop of `insert_memory_region_caps`. -/
def fallingBlocks (sizeBit : Nat) (region : Span) : List Block :=
  if region.start < region.stop then
    if region.stop - region.start ≥ 2 ^ sizeBit then
      ⟨region.start, sizeBit⟩ :: fallingBlocks sizeBit ⟨region.start + 2 ^ sizeBit, region.stop⟩
    else fallingBlocks (sizeBit - 1) region
  else []
termination_by region.stop - region.start + sizeBit
decreasing_by
  · have hpos := Nat.two_pow_pos sizeBit
    omega
  · -- A region that is not empty has room for one byte.
    have hzero : sizeBit ≠ 0 := by
      rintro rfl
      omega
    omega

/-- The blocks of both loops. -/
def regionBlocks (region : Span) : List Block :=
  let (blocks, sizeBit, rest) := risingBlocks 64 0 region
  blocks ++ fallingBlocks sizeBit rest

/-! ### Capabilities -/

/-- The body of the loops. -/
def createMemoryCap (rootTask : TaskPtr) (device : Bool) (block : Block) : K Capability := do
  let cap ← makeMemoryCap device (2 ^ block.sizeBit) block.start
  insertRootCap rootTask cap
  return cap

/-- The capabilities of a run for every element of a list. -/
def collect {α : Type} (body : α → K (List Capability)) : List α → K (List Capability)
  | [] => return []
  | a :: as => do
    let caps ← body a
    return caps ++ (← collect body as)

/-- The loops over the two parts of a region that `subtract_region` leaves. -/
def forParts (body : Span → K (List Capability)) (dst : Span × Span) : K (List Capability) :=
  collect (fun reg => if reg.start < reg.stop then body reg else return []) [dst.1, dst.2]

/-- Regions that get no capability. -/
def isInvalid (region : Span) : Prop := region.start ≥ region.stop ∨ region.start = 0

instance (region : Span) : Decidable (isInvalid region) :=
  inferInstanceAs (Decidable (_ ∨ _))

/-- `insert_memory_region_caps`, from an index of `reserved_region` on. -/
def insertMemoryRegionCaps (rootTask : TaskPtr) (device : Bool) :
    List Span → Span → K (List Capability)
  | [], region =>
    if isInvalid region then return []
    else collect (fun block => return [← createMemoryCap rootTask device block]) (regionBlocks region)
  | reserved :: rest, region =>
    if isInvalid region then return []
    else forParts (fun dst => insertMemoryRegionCaps rootTask device rest dst)
      (subtractRegion region reserved)

/-- What the linker, `get_dtb_region` and `for_each_dtb_node` provide. -/
structure DeviceTree where
  kernel : Span
  payload : Span
  stack : Span
  dtb : Span
  nodes : List DtbNode
deriving DecidableEq, Repr

/-- The pages of the device tree blob. -/
def DeviceTree.dtbRegion (tree : DeviceTree) : Span :=
  ⟨tree.dtb.start,
    (tree.dtb.start + roundUp (tree.dtb.stop - tree.dtb.start) PAGE_SIZE) % 2 ^ 64⟩

def setupMemoryCapabilities (rootTask : TaskPtr) (tree : DeviceTree) : K (List Capability) := do
  let tables ← pushReservedRegion limits ⟨[], [], []⟩ tree.kernel
  let tables ← pushReservedRegion limits tables tree.payload
  let tables ← pushReservedRegion limits tables tree.stack
  let tables ← pushNodes limits tree.nodes tables
  let caps ← collect (fun region =>
    forParts (insertMemoryRegionCaps rootTask false tables.reserved)
      (subtractRegion region tree.dtbRegion)) tables.memory
  let caps' ← collect (insertMemoryRegionCaps rootTask true tables.reserved) tables.device
  return caps ++ caps'

end Caprese.Setup
