import Caprese.Kernel.Cap

/-!
# `Caprese.Kernel.Mapping`: maps of tables, pages and capability spaces

`map_page_table_cap` to `extend_cap_space` of `cap.cpp`. The first slot is one that the
system call has found and checked, the others are what `lookup_cap` gave, which may be none.
-/

set_option autoImplicit false

namespace Caprese

open Lib Prog

/-- Fails with `errno`. -/
def failWith (e : SysError) : K Bool := do
  setErrno e
  return false

/-- The checks of an index and of a second slot that the map functions begin with: the slot
must be there and of type `type`. -/
def checkArgs (index : Nat) (slot : Option SlotPtr) (type : CapType) : K (Option SlotPtr) := do
  if index ≥ NUM_PAGE_TABLE_ENTRY then
    setErrno .eIllArgs
    return none
  match slot with
  | none =>
    setErrno .eIllArgs
    return none
  | some slot =>
    if getCapType ((← get).cap slot) ≠ type then
      setErrno .eCapType
      return none
    return some slot

/-- The address that entry `index` of a table maps, if its entries have the size of
`level`. -/
def entryAddr (cap : PageTableCap) (level index : Nat) : Nat :=
  cap.virtAddrBase + getPageSize level * index

def mapPageTableCap (pageTableSlot : SlotPtr) (index : Nat) (childSlot : Option SlotPtr) :
    K Bool := do
  let pageTable ← pageTableCap pageTableSlot
  match ← checkArgs index childSlot .pageTable with
  | none => return false
  | some childSlot =>
    let child ← pageTableCap childSlot
    let va := entryAddr pageTable pageTable.level index
    if va ≥ CONFIG_KERNEL_SPACE_BASE then failWith .eIllArgs
    else if pageTable.level = KILO_PAGE_TABLE_LEVEL then failWith .eIllState
    else if ((← get).pte pageTable.table index).isEnabled then failWith .eIllState
    else if child.mapped then failWith .eCapState
    else
      modify fun k => k.setPte pageTable.table index
        ((k.pte pageTable.table index).fill .table child.table)
      storeCap childSlot (.pageTable { child with
        mapped := true
        level := pageTable.level - 1
        virtAddrBase := va % CONFIG_MAX_VIRTUAL_ADDRESS
        parentTable := some pageTable.table })
      return true

def unmapPageTableCap (pageTableSlot : SlotPtr) (index : Nat) (childSlot : Option SlotPtr) :
    K Bool := do
  let pageTable ← pageTableCap pageTableSlot
  match ← checkArgs index childSlot .pageTable with
  | none => return false
  | some childSlot =>
    let child ← pageTableCap childSlot
    let va := entryAddr pageTable pageTable.level index
    let pte := (← get).pte pageTable.table index
    if va ≥ CONFIG_KERNEL_SPACE_BASE then failWith .eIllArgs
    else if pte.isDisabled then failWith .eIllState
    else if child.mapped = false then failWith .eCapState
    else if pte.getNextPage ≠ child.table then failWith .eIllState
    else
      modify fun k => k.setPte pageTable.table index (k.pte pageTable.table index).disable
      storeCap childSlot (.pageTable { child with mapped := false, parentTable := none })
      return true

/-- What `map_virt_page_cap` and `remap_virt_page_cap` store into the capability. -/
def VirtPageCap.mapTo (cap : VirtPageCap) (readable writable executable : Bool)
    (index va : Nat) (table : TablePtr) : VirtPageCap :=
  { cap with
    mapped := true
    readable := readable
    writable := writable
    executable := executable
    index := index
    address := va
    parentTable := some table }

def mapVirtPageCap (pageTableSlot : SlotPtr) (index : Nat) (virtPageSlot : Option SlotPtr)
    (readable writable executable : Bool) : K Bool := do
  let pageTable ← pageTableCap pageTableSlot
  match ← checkArgs index virtPageSlot .virtPage with
  | none => return false
  | some virtPageSlot =>
    let virtPage ← virtPageCap virtPageSlot
    let va := entryAddr pageTable virtPage.level index
    if va ≥ CONFIG_KERNEL_SPACE_BASE then failWith .eIllArgs
    else if ((← get).pte pageTable.table index).isEnabled then failWith .eIllState
    else if virtPage.mapped then failWith .eCapState
    else if virtPage.level ≠ pageTable.level then failWith .eCapState
    else
      if virtPage.device = false then
        modify fun k => k.storeBytes virtPage.physAddr
          (List.replicate (getPageSize virtPage.level) 0)
      modify fun k => k.setPte pageTable.table index ((k.pte pageTable.table index).fill
        (.userPage readable writable executable) virtPage.physAddr)
      storeCap virtPageSlot (.virtPage
        (virtPage.mapTo readable writable executable index va pageTable.table))
      return true

/-- Unlike its siblings this one does not compare the levels of the page and the table. -/
def unmapVirtPageCap (pageTableSlot : SlotPtr) (index : Nat) (virtPageSlot : Option SlotPtr) :
    K Bool := do
  let pageTable ← pageTableCap pageTableSlot
  match ← checkArgs index virtPageSlot .virtPage with
  | none => return false
  | some virtPageSlot =>
    let virtPage ← virtPageCap virtPageSlot
    let va := entryAddr pageTable virtPage.level index
    let pte := (← get).pte pageTable.table index
    if va ≥ CONFIG_KERNEL_SPACE_BASE then failWith .eIllArgs
    else if pte.isDisabled then failWith .eIllState
    else if virtPage.mapped = false then failWith .eCapState
    else if pte.getNextPage ≠ virtPage.physAddr then failWith .eIllState
    else
      modify fun k => k.setPte pageTable.table index (k.pte pageTable.table index).disable
      storeCap virtPageSlot (.virtPage { virtPage with mapped := false, parentTable := none })
      return true

def remapVirtPageCap (newPageTableSlot : SlotPtr) (index : Nat)
    (virtPageSlot : Option SlotPtr) (readable writable executable : Bool)
    (oldPageTableSlot : Option SlotPtr) : K Bool := do
  let newPageTable ← pageTableCap newPageTableSlot
  match ← checkArgs index virtPageSlot .virtPage with
  | none => return false
  | some virtPageSlot =>
    match ← checkArgs index oldPageTableSlot .pageTable with
    | none => return false
    | some oldPageTableSlot =>
      let virtPage ← virtPageCap virtPageSlot
      let oldPageTable ← pageTableCap oldPageTableSlot
      let va := entryAddr newPageTable virtPage.level index
      let oldPte := (← get).pte oldPageTable.table virtPage.index
      if va ≥ CONFIG_KERNEL_SPACE_BASE then failWith .eIllArgs
      else if virtPage.mapped = false then failWith .eCapState
      else if newPageTable.level ≠ oldPageTable.level then failWith .eCapState
      else if newPageTable.level ≠ virtPage.level then failWith .eCapState
      else if ((← get).pte newPageTable.table index).isEnabled then failWith .eIllState
      else if oldPte.isDisabled then failWith .eIllState
      else if oldPte.getNextPage ≠ virtPage.physAddr then failWith .eIllState
      else
        modify fun k => k.setPte oldPageTable.table virtPage.index
          (k.pte oldPageTable.table virtPage.index).disable
        modify fun k => k.setPte newPageTable.table index
          ((k.pte newPageTable.table index).fill (.userPage readable writable executable)
            virtPage.physAddr)
        storeCap virtPageSlot (.virtPage
          (virtPage.mapTo readable writable executable index va newPageTable.table))
        return true

/-- `insert_cap_space(task_slot, cap_space_slot)`. -/
def insertCapSpaceCap (taskSlot capSpaceSlot : SlotPtr) : K Bool := do
  let task ← taskCap taskSlot
  let capSpace ← capSpaceCap capSpaceSlot
  if isDead ((← get).tasks task.task) then failWith .eIllState
  else if capSpace.used then failWith .eCapState
  else if ← insertCapSpace task.task capSpace.space then
    -- The store goes into the member of the union, whatever the slot holds by now.
    match (← get).cap capSpaceSlot with
    | .capSpace cap => storeCap capSpaceSlot (.capSpace { cap with used := true })
    | _ => pure ()
    return true
  else return false

/-- `extend_cap_space(task_slot, page_table_slot)`. -/
def extendCapSpaceCap (taskSlot pageTableSlot : SlotPtr) : K Bool := do
  let task ← taskCap taskSlot
  let pageTable ← pageTableCap pageTableSlot
  if isDead ((← get).tasks task.task) then failWith .eIllState
  else if pageTable.mapped then failWith .eCapState
  else
    match ← extendCapSpace task.task pageTable.table with
    | none => return false
    | some va =>
      let table ← walkEnabled va [GIGA_PAGE_TABLE_LEVEL]
        ((← get).tasks task.task).rootPageTable
      let index ← pageTableWalk va MEGA_PAGE_TABLE_LEVEL
      kassert (((← get).pte table index).isEnabled = true)
      storeCap pageTableSlot (.pageTable { pageTable with
        mapped := true
        level := (← ask).config.kiloPage % 4
        virtAddrBase := va % CONFIG_MAX_VIRTUAL_ADDRESS
        parentTable := some ((← get).pte table index).getNextPage })
      return true

def compareIdCap (slot1 slot2 : SlotPtr) : K Int := do
  let id1 ← idCap slot1
  let id2 ← idCap slot2
  return if id1.val1 < id2.val1 then -1
    else if id1.val1 > id2.val1 then 1
    else if id1.val2 < id2.val2 then -1
    else if id1.val2 > id2.val2 then 1
    else if id1.val3 < id2.val3 then -1
    else if id1.val3 > id2.val3 then 1
    else 0

end Caprese
