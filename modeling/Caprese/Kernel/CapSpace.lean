import Caprese.Kernel.CapSlot
import Caprese.Kernel.PageTable

/-!
# `Caprese.Kernel.CapSpace`: capability spaces of tasks

The functions of `cap_space.cpp` and `task.cpp` that attach capability spaces to a task and
find slots in them: `insert_cap_space`, `extend_cap_space`, `lookup_cap` and
`get_cap_slot_index`. `Kernel.attachSpace` is the body of `insert_cap_space` behind its
checks.
-/

set_option autoImplicit false

namespace Caprese

open Lib Prog

/-- The width of `cap_count_t::num_cap_space`. -/
abbrev MAX_NUM_CAP_SPACE : Nat := NUM_PAGE_TABLE_ENTRY * NUM_PAGE_TABLE_ENTRY

def Kernel.setMetaInfo (k : Kernel) (space : SpacePtr) (info : MetaInfo) : Kernel :=
  { k with capSpaces := upd k.capSpaces space info }

/-- `memset` of a whole capability space. -/
def Kernel.zeroCapSpace (k : Kernel) (space : SpacePtr) : Kernel :=
  { k with
    capSpaces := upd k.capSpaces space ⟨none, 0⟩
    slots := fun s => if s.space = space then ⟨.null, none, none⟩ else k.slots s }

def Kernel.record (k : Kernel) (event : Event) : Kernel := { k with trace := k.trace ++ [event] }

/-- The slots of a space that `insert_cap_space` frees, from the last one down. -/
def spaceSlots (space : SpacePtr) (numCapSpace : Nat) : List SlotPtr :=
  let indices := if numCapSpace = 0 then List.range' 1 (NUM_SLOTS - 1) else List.range NUM_SLOTS
  indices.reverse.map (SlotPtr.mk space)

def insertCapSpace (task : TaskPtr) (capSpace : SpacePtr) : K Bool := do
  let count := ((← get).tasks task).capCount
  if count.numCapSpace / NUM_PAGE_TABLE_ENTRY > count.numExtension then
    setErrno .eIllState
    return false
  let va := CONFIG_CAPABILITY_SPACE_BASE + PAGE_SIZE * count.numCapSpace
  let table ← walkEnabled va [MAX_PAGE_TABLE_LEVEL, MEGA_PAGE_TABLE_LEVEL]
    ((← get).tasks task).rootPageTable
  let index ← pageTableWalk va KILO_PAGE_TABLE_LEVEL
  kassert (((← get).pte table index).isDisabled = true)
  modify fun k => k.setPte table index ((k.pte table index).fill .capSpace capSpace)
  if count.numCapSpace = 0 then
    modify fun k => { k with slots := upd k.slots ⟨capSpace, 0⟩ ⟨.null, none, none⟩ }
  modify fun k => (k.setMetaInfo capSpace ⟨some task, count.numCapSpace⟩).record
    (.attach task count.numCapSpace capSpace)
  forM (pushFreeSlots task) (spaceSlots capSpace count.numCapSpace)
  modify fun k => k.setTask task { k.tasks task with
    capCount := { (k.tasks task).capCount with
      numCapSpace := ((k.tasks task).capCount.numCapSpace + 1) % MAX_NUM_CAP_SPACE } }
  return true

def extendCapSpace (task : TaskPtr) (page : TablePtr) : K (Option Nat) := do
  let count := ((← get).tasks task).capCount
  if count.numExtension = NUM_PAGE_TABLE_ENTRY - 1 then
    setErrno .eIllState
    return none
  let va := CONFIG_CAPABILITY_SPACE_BASE + PAGE_SIZE * NUM_PAGE_TABLE_ENTRY * count.numExtension
  let table ← walkEnabled va [GIGA_PAGE_TABLE_LEVEL] ((← get).tasks task).rootPageTable
  let index ← pageTableWalk va MEGA_PAGE_TABLE_LEVEL
  kassert (((← get).pte table index).isDisabled = true)
  modify fun k => k.setPte table index ((k.pte table index).fill .table page)
  modify fun k => k.setTask task { k.tasks task with
    capCount := { (k.tasks task).capCount with
      numExtension := ((k.tasks task).capCount.numExtension + 1) % NUM_PAGE_TABLE_ENTRY } }
  return some va

/-- The descent of `lookup_cap`, which fails at a disabled entry. -/
def walkMapped (va : Nat) : List Nat → TablePtr → K (Option PhysAddr)
  | [], table => pure (some table)
  | level :: levels, table => do
    let index ← pageTableWalk va level
    let pte := (← get).pte table index
    if pte.isDisabled then return none else walkMapped va levels pte.getNextPage

def lookupCap (task : TaskPtr) (capDesc : Nat) : K (Option SlotPtr) := do
  let t := (← get).tasks task
  if t.state = .unused ∨ t.state = .killed then
    setErrno .eIllState
    return none
  if capDesc ≥ t.capCount.numCapSpace * NUM_SLOTS then
    setErrno .eIllArgs
    return none
  let va := CONFIG_CAPABILITY_SPACE_BASE + PAGE_SIZE * (capDesc / NUM_SLOTS)
  match ← walkMapped va [MAX_PAGE_TABLE_LEVEL, MEGA_PAGE_TABLE_LEVEL, KILO_PAGE_TABLE_LEVEL]
      t.rootPageTable with
  | none =>
    setErrno .eIllState
    return none
  | some space =>
    let slot : SlotPtr := ⟨space, capDesc % NUM_SLOTS⟩
    if getCapType ((← get).cap slot) = .null then
      setErrno .sOk
      return none
    return some slot

def getCapSlotIndex (slot : SlotPtr) : K Nat := do
  return NUM_SLOTS * ((← get).capSpaces slot.space).spaceIndex + slot.index

end Caprese
