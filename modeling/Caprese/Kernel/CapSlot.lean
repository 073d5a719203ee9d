import Caprese.Kernel.Types

/-!
# `Caprese.Kernel.CapSlot`: slots and their two kinds of lists

The slot methods of `cap_space.cpp` (`insert_before`, `insert_after`, `erase_this`,
`replace`) and the free lists of `task.cpp` (`insert_cap`, `push_free_slots`,
`pop_free_slots`). Free slots and slots in use are linked through the same two fields, which
`Kernel.links` reads and `Kernel.setLinks` writes.

The `wp_*` lemmas state each function exactly: which null pointer, assertion or panic stops
it, and which state it ends in otherwise.
-/

set_option autoImplicit false

namespace Caprese

open Lib Prog

namespace Kernel

/-- The links of all slots. -/
def links (k : Kernel) : Links SlotPtr where
  prev s := (k.slots s).prev
  next s := (k.slots s).next

/-- The capability in a slot. -/
def cap (k : Kernel) (s : SlotPtr) : Capability := (k.slots s).cap

def setLinks (k : Kernel) (L : Links SlotPtr) : Kernel :=
  { k with slots := fun s => { k.slots s with prev := L.prev s, next := L.next s } }

def setCap (k : Kernel) (s : SlotPtr) (c : Capability) : Kernel :=
  { k with slots := upd k.slots s { k.slots s with cap := c } }

def setTask (k : Kernel) (t : TaskPtr) (task : Task) : Kernel :=
  { k with tasks := upd k.tasks t task }

/-- The task whose capability space holds a slot: `get_cap_space()->meta_info.task`. -/
def slotTask (k : Kernel) (s : SlotPtr) : Option TaskPtr := (k.capSpaces s.space).task

variable (k : Kernel) (L : Links SlotPtr) (s : SlotPtr) (c : Capability)
  (t : TaskPtr) (task : Task)

@[simp] theorem setLinks_links : (k.setLinks L).links = L := rfl

@[simp] theorem setLinks_cap : (k.setLinks L).cap = k.cap := rfl

@[simp] theorem setLinks_tasks : (k.setLinks L).tasks = k.tasks := rfl

@[simp] theorem setLinks_capSpaces : (k.setLinks L).capSpaces = k.capSpaces := rfl

@[simp] theorem setLinks_slotTask : (k.setLinks L).slotTask = k.slotTask := rfl

@[simp] theorem setCap_links : (k.setCap s c).links = k.links := by
  ext x y
  · by_cases h : x = s <;> simp [links, setCap, upd_apply, h]
  · by_cases h : x = s <;> simp [links, setCap, upd_apply, h]

theorem setCap_cap : (k.setCap s c).cap = upd k.cap s c := by
  funext x
  by_cases h : x = s <;> simp [cap, setCap, upd_apply, h]

@[simp] theorem setCap_tasks : (k.setCap s c).tasks = k.tasks := rfl

@[simp] theorem setCap_capSpaces : (k.setCap s c).capSpaces = k.capSpaces := rfl

@[simp] theorem setCap_slotTask : (k.setCap s c).slotTask = k.slotTask := rfl

@[simp] theorem setTask_links : (k.setTask t task).links = k.links := rfl

@[simp] theorem setTask_cap : (k.setTask t task).cap = k.cap := rfl

@[simp] theorem setTask_tasks : (k.setTask t task).tasks = upd k.tasks t task := rfl

@[simp] theorem setTask_capSpaces : (k.setTask t task).capSpaces = k.capSpaces := rfl

@[simp] theorem setTask_slotTask : (k.setTask t task).slotTask = k.slotTask := rfl

end Kernel

/-! ### The slot methods -/

namespace CapSlot

def isIsolated (slot : CapSlot) : Bool := slot.prev.isNone && slot.next.isNone

def isUnused (slot : CapSlot) : Bool := getCapType slot.cap = .null && slot.isIsolated

def isHead (slot : CapSlot) : Bool := slot.prev.isNone

def isTail (slot : CapSlot) : Bool := slot.next.isNone

end CapSlot

/-- The lock of a slot's task is taken and the task must be in use. -/
def checkSlotTask (slot : SlotPtr) : K Unit := do
  let task ← deref ((← get).slotTask slot)
  if ((← get).tasks task).state = .unused then stop .panic

/-- `cap_slot_t::insert_before`: `slot` goes in front of `this`. -/
def insertBefore (this slot : SlotPtr) : K Unit := do
  kassert ((← get).slots slot).isIsolated
  checkSlotTask slot
  modify fun k => k.setLinks (k.links.insertBefore this slot)

/-- `cap_slot_t::insert_after`: the list that `slot` heads goes behind `this`. -/
def insertAfter (this slot : SlotPtr) : K Unit := do
  kassert ((← get).slots slot).isHead
  checkSlotTask slot
  let tail ← kloop (fun tail => do
    match ((← get).slots tail).next with
    | some next => return .inl next
    | none => return .inr tail) slot
  modify fun k => k.setLinks (k.links.insertAfter this slot tail)

/-- `cap_slot_t::erase_this`. The answer is a neighbour, the next one if there is one. -/
def eraseThis (this : SlotPtr) : K (Option SlotPtr) := do
  checkSlotTask this
  let slot := (← get).slots this
  modify fun k => k.setLinks (k.links.erase this)
  return slot.next.or slot.prev

/-- `cap_slot_t::replace`: `this` takes over the place of `slot`. -/
def replace (this slot : SlotPtr) : K Unit := do
  kassert ((← get).slots this).isIsolated
  checkSlotTask slot
  modify fun k => k.setLinks (k.links.replace this slot)

/-! ### Free slots -/

def pushFreeSlots (task : TaskPtr) (slot : SlotPtr) : K Unit := do
  kassert ((← get).slotTask slot = some task)
  let _ ← eraseThis slot
  modify fun k => k.setCap slot .null
  match ((← get).tasks task).freeSlots with
  | some head => insertBefore head slot
  | none => pure ()
  modify fun k => k.setTask task { k.tasks task with
    freeSlots := some slot
    freeSlotsCount := (k.tasks task).freeSlotsCount + 1 }

def popFreeSlots (task : TaskPtr) : K (Option SlotPtr) := do
  match ((← get).tasks task).freeSlots with
  | none =>
    setErrno .eOutOfCapSpace
    return none
  | some slot =>
    let head ← eraseThis slot
    modify fun k => k.setTask task { k.tasks task with
      freeSlots := head
      freeSlotsCount := (k.tasks task).freeSlotsCount - 1 }
    return some slot

def insertCap (task : TaskPtr) (cap : Capability) : K (Option SlotPtr) := do
  let state := ((← get).tasks task).state
  if state = .unused ∨ state = .killed then
    setErrno .eIllState
    return none
  match ← popFreeSlots task with
  | none =>
    setErrno .eOutOfCapSpace
    return none
  | some slot =>
    modify fun k => k.setCap slot cap
    return some slot

/-! ### The methods, exactly -/

section Rules

variable {cfg : Config} {env : Env} {E : Stop → Kernel → Prop} {k : Kernel}

theorem wp_checkSlotTask {slot : SlotPtr} {Q : Unit → Kernel → Prop} :
    wp (checkSlotTask slot) env Q E k ↔
      match k.slotTask slot with
      | none => E .nullDeref k
      | some t => if (k.tasks t).state = .unused then E .panic k else Q () k := by
  unfold checkSlotTask
  cases h : k.slotTask slot <;> simp [h]

theorem wp_eraseThis {this : SlotPtr} {Q : Option SlotPtr → Kernel → Prop} :
    wp (eraseThis this) env Q E k ↔
      match k.slotTask this with
      | none => E .nullDeref k
      | some t =>
        if (k.tasks t).state = .unused then E .panic k
        else Q ((k.links.next this).or (k.links.prev this))
          (k.setLinks (k.links.erase this)) := by
  unfold eraseThis
  simp only [wp_bind, wp_checkSlotTask]
  rfl

end Rules

end Caprese
